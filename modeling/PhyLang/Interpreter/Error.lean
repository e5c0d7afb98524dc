import PhyLang.Value.Operation

namespace PhyLang

/-- What went wrong. Names and operators are held as they are shown. -/
inductive Cause
  | undefinedVariable (name : String)
  | undefinedAssignment (name : String)
  | declaredTwice (name : String)
  | operation (e : OperationError)
  | negation (e : OperationError)
  | conditionOfIf
  | conditionOfWhile
  | conditionOf (operator : String)
  | bangOnNumber
  | minusOnOther
  | uninitialized
  | notCallable (type : String)
  | arity (expected : Int) (actual : Nat)
  | tooDeep (name : String)
  | lostPlaceholder (name : String)
  | returned (value : Value)
  | host (kind message : String)
  deriving Inhabited

namespace Cause

def kind : Cause → String
  | .undefinedVariable _ => "UndefinedVariable"
  | .undefinedAssignment _ => "UndefinedAssignment"
  | .declaredTwice _ => "DeclarationError"
  | .operation _ => "OperationError"
  | .negation _ => "NegationError"
  | .conditionOfIf | .conditionOf _ => "NonBoolIfCondition"
  | .conditionOfWhile => "NonBoolWhileCondition"
  | .bangOnNumber => "BangOnNonBool"
  | .minusOnOther => "NegateNonNumeric"
  | .uninitialized => "UninitializedValue"
  | .notCallable _ => "NotCallable"
  | .arity _ _ => "ArityMismatch"
  | .tooDeep _ => "StackOverflow"
  | .lostPlaceholder _ => "ForLoopError"
  | .returned _ => "Return"
  | .host kind _ => kind

def message : Cause → String
  | .undefinedVariable name => s!"undefined variable {name}"
  | .undefinedAssignment name | .lostPlaceholder name => s!"assignment to undefined variable {name}"
  | .declaredTwice name => s!"variable {name} already declared"
  | .operation e | .negation e => e.message
  | .conditionOfIf => "'if' condition is not a bool"
  | .conditionOfWhile => "'while' condition is not a bool"
  | .conditionOf operator => s!"left operand of '{operator}' is not a bool"
  | .bangOnNumber => "'!' can only be applied to a bool value"
  | .minusOnOther => "'-' can only be applied to an int or a real value"
  | .uninitialized => "use of an uninitialized value"
  | .notCallable type => s!"only functions are callable, got {type}"
  | .arity expected actual => s!"wrong number of arguments: expected {expected} but got {actual}"
  | .tooDeep name => s!"call depth exceeded in {name}"
  | .returned value => s!"return outside of a function: {value.text}"
  | .host _ message => message

end Cause

/-- An error of a running program, with the location of the node where it arose. One inside of a
function comes wrapped once for each call on the way out, so the chain of wrappings is the stack of
calls. -/
inductive RuntimeError
  | raised (cause : Cause) (loc : Option Loc)
  | inCall (name : String) (inner : RuntimeError) (loc : Option Loc)
  deriving Inhabited

namespace RuntimeError

def loc? : RuntimeError → Option Loc
  | .raised _ loc | .inCall _ _ loc => loc

def kind : RuntimeError → String
  | .raised cause _ => cause.kind
  | .inCall _ _ _ => "CallError"

def located (kind message : String) (loc : Option Loc) : String :=
  match loc with
  | none => s!"{kind}: {message}"
  | some loc => s!"{kind}: {message} at {loc.shown}"

mutual

def message : RuntimeError → String
  | .raised cause _ => cause.message
  | .inCall name inner _ => s!"in {name}: {text inner}"

def text : RuntimeError → String
  | .raised cause loc => located cause.kind cause.message loc
  | .inCall name inner loc => located "CallError" s!"in {name}: {text inner}" loc

end

/-- The error at the bottom of the calls. -/
def innermost : RuntimeError → RuntimeError
  | .inCall _ inner _ => inner.innermost
  | e => e

end RuntimeError

/-- Why a run stops before its end: the program has an error, the host refuses to go on, or the
steps that the run was given are used up. -/
inductive Stop
  | error (e : RuntimeError)
  | fault (f : Fault)
  | exhausted
  deriving Inhabited

end PhyLang
