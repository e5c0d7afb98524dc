import PhyLang.Main
import PhyLang.Proofs.Ast.Normal
import PhyLang.Proofs.CommandLine.Answer
import PhyLang.Proofs.Grammar.Locations
import PhyLang.Proofs.Grammar.Strings
import PhyLang.Proofs.Grammar.Words
import PhyLang.Proofs.Interpreter.Behaviour
import PhyLang.Proofs.Interpreter.CallLimit
import PhyLang.Proofs.Interpreter.CallStack
import PhyLang.Proofs.Interpreter.Counting
import PhyLang.Proofs.Interpreter.IntegerRange
import PhyLang.Proofs.Interpreter.Isolation
import PhyLang.Proofs.Interpreter.Literals
import PhyLang.Proofs.Interpreter.Observation
import PhyLang.Proofs.Interpreter.Scopes
import PhyLang.Proofs.Scope.Laws
import PhyLang.Proofs.Source.Settled
import PhyLang.Proofs.Value.Table
import PhyLang.Value.Foreign
