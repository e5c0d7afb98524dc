import PhyLang.Integer.Text
import PhyLang.Value.Basic

namespace PhyLang

inductive OperationError
  | overflow (result : Int)
  | divisionByZero
  | negativeCount (count : Int)
  | unsupported (operator left right : String)
  | unknownOperator (operator : String)
  | notNegatable (type : String)
  | notInvertible (type : String)
  | unknownUnaryOperator (operator : String)
  deriving DecidableEq, Repr, Inhabited

def OperationError.message : OperationError → String
  | .overflow result => s!"integer overflow: {result} does not fit in 64 bits"
  | .divisionByZero => "division by zero"
  | .negativeCount count => s!"can't repeat a string a negative number of times ({count})"
  | .unsupported operator left right =>
    s!"operator '{operator}' is not supported between {left} and {right}"
  | .unknownOperator operator => s!"unknown operator {operator}"
  | .notNegatable type => s!"can't negate a value of type {type}"
  | .notInvertible type => s!"can't apply '!' to a value of type {type}"
  | .unknownUnaryOperator operator => s!"unknown unary operator {operator}"

/-- What the host refuses to do, beyond the errors of the language. -/
inductive Fault
  /-- An integer in a message has too many digits to be written. -/
  | unwritable
  | largeReal
  /-- A count of repetitions is beyond the size of any text. -/
  | largeCount
  | unusableName
  | notStatement
  | notExpression
  | notBound
  | namelessPlaceholder
  /-- Something is called of which nothing but that is known. -/
  | bareCallable
  | missingArgument
  deriving DecidableEq, Repr, Inhabited

inductive OperationFailure
  | error (e : OperationError)
  | fault (f : Fault)
  deriving DecidableEq, Repr, Inhabited

abbrev Operated := Except OperationFailure

inductive BinaryOperator
  | add | sub | mul | div | less | lessEqual | greater | greaterEqual | equal | notEqual
  deriving DecidableEq, Repr, Inhabited

namespace BinaryOperator

def text : BinaryOperator → String
  | .add => "+"
  | .sub => "-"
  | .mul => "*"
  | .div => "/"
  | .less => "<"
  | .lessEqual => "<="
  | .greater => ">"
  | .greaterEqual => ">="
  | .equal => "=="
  | .notEqual => "!="

def all : List BinaryOperator :=
  [.add, .sub, .mul, .div, .less, .lessEqual, .greater, .greaterEqual, .equal, .notEqual]

def ofText? (spelling : String) : Option BinaryOperator := all.find? fun op => op.text == spelling

/-- Whether two values in a given order satisfy a comparison; values without order satisfy only the
last one. -/
def holds (op : BinaryOperator) (order : Option Ordering) : Bool :=
  match op with
  | .less => order == some .lt
  | .lessEqual => order == some .lt || order == some .eq
  | .greater => order == some .gt
  | .greaterEqual => order == some .gt || order == some .eq
  | .equal => order == some .eq
  | .notEqual => order != some .eq
  | _ => false

end BinaryOperator

namespace Value

def minInt : Int := -0x8000000000000000

def maxInt : Int := 0x7fffffffffffffff

/-- A failure whose message shows an integer. -/
def failureShowing (n : Int) (e : OperationError) : OperationFailure :=
  if Integer.isWritable n then .error e else .fault .unwritable

/-- An integer as a result, which must fit in 64 bits. -/
def checked (n : Int) : Operated Value :=
  if minInt ≤ n ∧ n ≤ maxInt then .ok (.int n) else .error (failureShowing n (.overflow n))

def magnitude? : Value → Option Real.Magnitude
  | .int n => some (.ofInt n)
  | .real x => some (Real.magnitude x)
  | _ => none

def toReal (v : Value) : Operated Float :=
  match v with
  | .int n =>
    match Real.ofInt? n with
    | some x => .ok x
    | none => .error (.fault .largeReal)
  | .real x => .ok x
  | _ => .ok 0

def onReals (calculate : Float → Float → Float) (left right : Value) : Operated Value := do
  let a ← left.toReal
  let b ← right.toReal
  return .real (calculate a b)

def isZero (v : Value) : Bool := v.magnitude? == some (.units 0)

/-- A quotient. That of two integers is cut off toward zero. -/
def divide (left right : Value) : Operated Value :=
  if right.isZero then .error (.error .divisionByZero)
  else
    match left, right with
    | .int a, .int b => checked (a.tdiv b)
    | _, _ => onReals (· / ·) left right

def repeated (s : String) (count : Int) : Operated Value :=
  if count < 0 then .error (failureShowing count (.negativeCount count))
  else if maxInt < count then .error (.fault .largeCount)
  else if s.isEmpty then .ok (.str "")
  else .ok (.str (String.join (List.replicate count.toNat s)))

def unsupported (op : BinaryOperator) (left right : Value) : Operated Value :=
  .error (.error (.unsupported op.text left.typeName right.typeName))

def onInts (op : BinaryOperator) (a b : Int) : Int :=
  match op with
  | .add => a + b
  | .sub => a - b
  | _ => a * b

def onFloats (op : BinaryOperator) (a b : Float) : Float :=
  match op with
  | .add => a + b
  | .sub => a - b
  | _ => a * b

def calculate (op : BinaryOperator) (left right : Value) : Operated Value :=
  match op, left, right with
  | _, .int a, .int b => checked (onInts op a b)
  | .add, .str a, .str b => .ok (.str (a ++ b))
  | .mul, .str s, .int count | .mul, .int count, .str s => repeated s count
  | _, _, _ =>
    if left.isNumeric && right.isNumeric then onReals (onFloats op) left right
    else unsupported op left right

/-- The order of two values that can be equal: two numbers, two texts or two truth values. -/
def sameKindOrder? : Value → Value → Option (Option Ordering)
  | .str a, .str b => some (if a == b then some .eq else none)
  | .bool a, .bool b => some (if a == b then some .eq else none)
  | left, right => do return (← left.magnitude?).compare? (← right.magnitude?)

/-- A binary operator applied to two values. Integers are calculated exactly, and where a real takes
part in a calculation, both operands are made real first; comparison never rounds. A truth value is
never a number. -/
def apply (op : BinaryOperator) (left right : Value) : Operated Value :=
  match op with
  | .add | .sub | .mul => calculate op left right
  | .div => if left.isNumeric && right.isNumeric then divide left right else unsupported op left right
  | .less | .lessEqual | .greater | .greaterEqual =>
    match left.magnitude?, right.magnitude? with
    | some a, some b => .ok (.bool (op.holds (a.compare? b)))
    | _, _ => unsupported op left right
  | .equal | .notEqual =>
    match sameKindOrder? left right with
    | some order => .ok (.bool (op.holds order))
    | none => unsupported op left right

/-- The binary operator with a given spelling applied to two values. -/
def operate (left right : Value) (operator : String) : Operated Value :=
  match BinaryOperator.ofText? operator with
  | some op => apply op left right
  | none => .error (.error (.unknownOperator operator))

def negate (v : Value) (operator : String) : Operated Value :=
  if operator = "-" then
    match v with
    | .int n => checked (-n)
    | .real x => .ok (.real (-x))
    | _ => .error (.error (.notNegatable v.typeName))
  else if operator = "!" then
    match v with
    | .bool b => .ok (.bool !b)
    | _ => .error (.error (.notInvertible v.typeName))
  else .error (.error (.unknownUnaryOperator operator))

end Value

end PhyLang
