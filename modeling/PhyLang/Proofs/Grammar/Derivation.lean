import Mathlib.Tactic
import PhyLang.Grammar.Program

namespace PhyLang.Grammar

open Source (Span)

namespace Level

/-- The place of a level among the ranks of expressions, where an assignment has rank zero. -/
def rank : Level → Nat
  | .or => 1
  | .and => 2
  | .equality => 3
  | .comparison => 4
  | .sum => 5
  | .product => 6

/-- The operators of a level. -/
def operators : Level → List String
  | .or => ["or"]
  | .and => ["and"]
  | .equality => ["==", "!="]
  | .comparison => ["<", "<=", ">", ">="]
  | .sum => ["+", "-"]
  | .product => ["*", "/"]

end Level

/-- The rank of an expression with a sign before it. -/
def unaryRank : Nat := 7

/-- The rank of a call. -/
def callRank : Nat := 8

/-- The rank of an expression that no operator can take apart. -/
def primaryRank : Nat := 9

mutual

/-- The tokens of an expression of at least a given rank. The operand on the right of a binary operator has a
higher rank than the one on its left, so operators of one level associate to the left. -/
inductive Expr : Nat → List Token → Node × Span → Prop
  | assign {target sign : Token} {tokens : List Token} {value : Node × Span} (name : target.kind = .name)
      (equals : sign.kind = .mark .assign) (derived : Expr 0 tokens value) :
      Expr 0 (target :: sign :: tokens) (.assign (textOf target) value.1 (some (.ofSpan (target.span.to value.2))),
        target.span.to value.2)
  | looser {rank : Nat} {tokens : List Token} {expr : Node × Span} (derived : Expr (rank + 1) tokens expr) :
      Expr rank tokens expr
  | join {level : Level} {operator : Token} {leftTokens rightTokens : List Token} {left right : Node × Span}
      (joins : level.holds operator.kind) (derivedLeft : Expr level.rank leftTokens left)
      (derivedRight : Expr (level.rank + 1) rightTokens right) :
      Expr level.rank (leftTokens ++ operator :: rightTokens) (joined level operator left right)
  | sign {operator : Token} {tokens : List Token} {right : Node × Span}
      (signs : operator.kind = .mark .bang ∨ operator.kind = .mark .minus)
      (derived : Expr unaryRank tokens right) :
      Expr unaryRank (operator :: tokens) (.unary (textOf operator) right.1 (some (.ofSpan (operator.span.to right.2))),
        operator.span.to right.2)
  | call {opening closing : Token} {calleeTokens tokens : List Token} {callee : Node × Span} {args : List Node}
      (opens : opening.kind = .mark .openRound) (closes : closing.kind = .mark .closeRound)
      (derived : Expr callRank calleeTokens callee) (derivedArgs : Args tokens args) :
      Expr callRank (calleeTokens ++ opening :: tokens ++ [closing])
        (.call callee.1 args (some (.ofSpan (callee.2.to closing.span))), callee.2.to closing.span)
  | grouping {opening closing : Token} {tokens : List Token} {expr : Node × Span}
      (opens : opening.kind = .mark .openRound) (closes : closing.kind = .mark .closeRound)
      (derived : Expr 0 tokens expr) :
      Expr primaryRank (opening :: tokens ++ [closing])
        (.grouping expr.1 (some (.ofSpan (opening.span.to closing.span))), opening.span.to closing.span)
  | leaf {token : Token} {node : Node} (alone : leaf? token = some node) :
      Expr primaryRank [token] (node, token.span)

/-- The tokens between the brackets of a call. -/
inductive Args : List Token → List Node → Prop
  | none : Args [] []
  | some {tokens later : List Token} {arg : Node × Span} {args : List Node} (derived : Expr 0 tokens arg)
      (derivedLater : MoreArgs later args) : Args (tokens ++ later) (arg.1 :: args)

/-- The tokens of a call's arguments after the first one. -/
inductive MoreArgs : List Token → List Node → Prop
  | none : MoreArgs [] []
  | next {comma : Token} {tokens later : List Token} {arg : Node × Span} {args : List Node}
      (separates : comma.kind = .mark .comma) (derived : Expr 0 tokens arg) (derivedLater : MoreArgs later args) :
      MoreArgs (comma :: tokens ++ later) (arg.1 :: args)

end

/-- An expression stands wherever a lower rank is asked for. -/
theorem Expr.weaken {low high : Nat} {tokens : List Token} {expr : Node × Span} (le : low ≤ high)
    (derived : Expr high tokens expr) : Expr low tokens expr := by
  induction high, le using Nat.le_induction with
  | base => exact derived
  | succ high _ ih => exact ih (.looser derived)

/-- The tokens of a function's parameters after the first one. -/
inductive MoreParams : List Token → List Json → Prop
  | none : MoreParams [] []
  | next {comma param : Token} {later : List Token} {params : List Json} (separates : comma.kind = .mark .comma)
      (name : param.kind = .name) (derivedLater : MoreParams later params) :
      MoreParams (comma :: param :: later) (textOf param :: params)

/-- The tokens between the brackets of a function's parameters. -/
inductive Params : List Token → List Json → Prop
  | none : Params [] []
  | some {param : Token} {later : List Token} {params : List Json} (name : param.kind = .name)
      (derivedLater : MoreParams later params) : Params (param :: later) (textOf param :: params)

/-- The tokens of a range. -/
inductive Bounds : List Token → Json × Json → Prop
  | one {first : Token} (bound : first.kind = .bound) : Bounds [first] (.int (Token.intValue first.text), .null)
  | two {first range second : Token} (bound : first.kind = .bound) (separates : range.kind = .mark .range)
      (secondBound : second.kind = .bound) :
      Bounds [first, range, second] (.int (Token.intValue first.text), .int (Token.intValue second.text))

/-- The tokens of a statement without a block. -/
inductive Simple : List Token → Node → Prop
  | print {word : Token} {tokens : List Token} {expr : Node × Span} (begins : word.kind = .word .print)
      (derived : Expr 0 tokens expr) :
      Simple (word :: tokens) (.printStmt expr.1 (some (.ofSpan (word.span.to expr.2))))
  | declare {word target sign : Token} {tokens : List Token} {value : Node × Span} (begins : word.kind = .word .var)
      (name : target.kind = .name) (equals : sign.kind = .mark .assign) (derived : Expr 0 tokens value) :
      Simple (word :: target :: sign :: tokens)
        (.varDecl (textOf target) value.1 (some (.ofSpan (word.span.to value.2))))
  | declareEmpty {word target : Token} (begins : word.kind = .word .var) (name : target.kind = .name) :
      Simple [word, target] (.varDecl (textOf target) .absent (some (.ofSpan (word.span.to target.span))))
  | return {word : Token} {tokens : List Token} {value : Node × Span} (begins : word.kind = .word .return)
      (derived : Expr 0 tokens value) :
      Simple (word :: tokens) (.returnStmt value.1 (some (.ofSpan (word.span.to value.2))))
  | returnEmpty {word : Token} (begins : word.kind = .word .return) :
      Simple [word] (.returnStmt .absent (some (.ofSpan word.span)))
  | expr {tokens : List Token} {expr : Node × Span} (derived : Expr 0 tokens expr) :
      Simple tokens (.exprStmt expr.1 (some (.ofSpan expr.2)))

mutual

/-- The tokens of statements one after the other. A statement without a block has a semicolon behind it,
unless it is the last one. -/
inductive Statements : List Token → List Node → Prop
  | none : Statements [] []
  | last {tokens : List Token} {node : Node} (derived : Simple tokens node) : Statements tokens [node]
  | semicolon {mark : Token} {tokens : List Token} {nodes : List Node} (ends : mark.kind = .mark .semicolon)
      (derived : Statements tokens nodes) : Statements (mark :: tokens) nodes
  | simple {mark : Token} {tokens later : List Token} {node : Node} {nodes : List Node}
      (derived : Simple tokens node) (ends : mark.kind = .mark .semicolon)
      (derivedLater : Statements later nodes) : Statements (tokens ++ mark :: later) (node :: nodes)
  | compound {tokens later : List Token} {node : Node × Span} {nodes : List Node} (derived : Compound tokens node)
      (derivedLater : Statements later nodes) : Statements (tokens ++ later) (node.1 :: nodes)

/-- The tokens of a block. -/
inductive Block : List Token → List Node × Span → Prop
  | curly {opening closing : Token} {tokens : List Token} {nodes : List Node}
      (opens : opening.kind = .mark .openCurly) (closes : closing.kind = .mark .closeCurly)
      (derived : Statements tokens nodes) :
      Block (opening :: tokens ++ [closing]) (nodes, opening.span.to closing.span)

/-- The tokens of a statement that ends with a block. -/
inductive Compound : List Token → Node × Span → Prop
  | if {word : Token} {tokens bodyTokens : List Token} {condition : Node × Span} {body : List Node × Span}
      (begins : word.kind = .word .if) (derived : Expr 0 tokens condition) (derivedBody : Block bodyTokens body) :
      Compound (word :: tokens ++ bodyTokens)
        (.ifStmt condition.1 (.block body.1 (some (.ofSpan body.2))) .absent (some (.ofSpan (word.span.to body.2))),
          word.span.to body.2)
  | ifElse {word : Token} {tokens bodyTokens otherTokens : List Token} {condition other : Node × Span}
      {body : List Node × Span} (begins : word.kind = .word .if) (derived : Expr 0 tokens condition)
      (derivedBody : Block bodyTokens body) (derivedOther : Alternative otherTokens other) :
      Compound (word :: tokens ++ bodyTokens ++ otherTokens)
        (.ifStmt condition.1 (.block body.1 (some (.ofSpan body.2))) other.1
          (some (.ofSpan (word.span.to other.2))), word.span.to other.2)
  | while {word : Token} {tokens bodyTokens : List Token} {condition : Node × Span} {body : List Node × Span}
      (begins : word.kind = .word .while) (derived : Expr 0 tokens condition) (derivedBody : Block bodyTokens body) :
      Compound (word :: tokens ++ bodyTokens)
        (.whileStmt condition.1 (.block body.1 (some (.ofSpan body.2))) (some (.ofSpan (word.span.to body.2))),
          word.span.to body.2)
  | for {word target member : Token} {tokens bodyTokens : List Token} {range : Json × Json}
      {body : List Node × Span} (begins : word.kind = .word .for) (name : target.kind = .name)
      (within : member.kind = .word .in) (derived : Bounds tokens range) (derivedBody : Block bodyTokens body) :
      Compound (word :: target :: member :: tokens ++ bodyTokens)
        (.forStmt (.varDecl (textOf target) .absent (some (.ofSpan target.span))) range.1 range.2
          (.block body.1 (some (.ofSpan body.2))) (some (.ofSpan (word.span.to body.2))), word.span.to body.2)
  | function {word target opening closing : Token} {tokens bodyTokens : List Token} {params : List Json}
      {body : List Node × Span} (begins : word.kind = .word .fn) (name : target.kind = .name)
      (opens : opening.kind = .mark .openRound) (closes : closing.kind = .mark .closeRound)
      (derived : Params tokens params) (derivedBody : Block bodyTokens body) :
      Compound (word :: target :: opening :: tokens ++ closing :: bodyTokens)
        (.fnDecl (textOf target) params body.1 (some (.ofSpan (word.span.to body.2))), word.span.to body.2)
  | block {tokens : List Token} {body : List Node × Span} (derivedBody : Block tokens body) :
      Compound tokens (.block body.1 (some (.ofSpan body.2)), body.2)

/-- The tokens of a condition's alternative, which is a block or another condition. -/
inductive Alternative : List Token → Node × Span → Prop
  | else {word first : Token} {tokens : List Token} {node : Node × Span} (begins : word.kind = .word .else)
      (branch : first.kind = .word .if ∨ first.kind = .mark .openCurly) (derived : Compound (first :: tokens) node) :
      Alternative (word :: first :: tokens) node

end

end PhyLang.Grammar
