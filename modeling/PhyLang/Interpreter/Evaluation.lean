import PhyLang.Ast.Range
import PhyLang.Interpreter.Machine

namespace PhyLang.Run

def binary (operator : Json) (left right : Value) (loc : Option Loc) : Run Value :=
  match operator with
  | .str op => operated (left.operate right op) .operation loc
  | .arr _ | .obj _ => refuse .unusableName
  | _ => fail (.operation (.unknownOperator operator.shown)) loc

def unary (operator : Json) (value : Value) (loc : Option Loc) : Run Value :=
  match operator, value with
  | .str "!", .int _ | .str "!", .real _ => fail .bangOnNumber loc
  | .str "-", .bool _ | .str "-", .str _ | .str "-", .null => fail .minusOnOther loc
  | .str op, _ => operated (value.negate op) .negation loc
  | _, _ => fail (.negation (.unknownUnaryOperator operator.shown)) loc

/-- Whether a logical operator leaves its right operand unevaluated. -/
def isDecided (operator : Json) (left : Bool) : Bool :=
  match operator with
  | .str "or" => left
  | .str "and" => !left
  | _ => false

def boundOf : Json → Run Int
  | .int n => pure n
  | .bool b => pure (if b then 1 else 0)
  | _ => refuse .notBound

def rangeOf (start stop : Json) : Run IntRange :=
  match stop with
  | .null => do return .between (← boundOf start) none
  | _ => do
    let last ← boundOf stop
    return .between (← boundOf start) (some last)

/-- The name by which a function is known in messages. -/
def calleeName? : Value → Option String
  | .fn closure => some closure.name.shown
  | .native function => some function.name
  | _ => none

/-- A run whose errors are those inside of a call. -/
def wrapped {α : Type} (name : String) (loc : Option Loc) (run : Run α) : Run α := fun m =>
  match run m with
  | .error (.error e) m' => .error (.error (.inCall name e loc)) m'
  | result => result

/-- Binds the parameters of a function to arguments, as far as there are both. -/
def bindParams (f : FrameId) (loc : Option Loc) : List Json → List Value → Run Unit
  | param :: params, arg :: args => do
    declare f param arg loc
    bindParams f loc params args
  | _, _ => pure ()

mutual

/-- Runs a statement in a frame. The frame is passed along, so leaving a scope takes no step, and
blocks and loops hand on a value that is returned until the call takes it. Every step takes one unit
of fuel, and `depth` counts the calls that are active. -/
def execute (setting : Setting) : (fuel : Nat) → (depth : Nat) → FrameId → Node → Run Completion
  | 0, _, _, _ => throw .exhausted
  | fuel + 1, depth, f, node =>
    match node with
    | .exprStmt expr _ => do return .ofValue (← evaluate setting fuel depth f expr)
    | .printStmt expr _ => do
      let v ← evaluate setting fuel depth f expr
      put (.printed v.text)
      return .value .null
    | .varDecl name value loc => do
      let v ← initial setting fuel depth f value
      declare f name v loc
      trace setting (.declared name.shown v.typeName v.text)
      return .value .null
    | .block statements _ => do executeAll setting fuel depth (← newFrame f) statements
    | .ifStmt condition thenBranch elseBranch loc => do
      match ← evaluate setting fuel depth f condition with
      | .bool taken =>
        trace setting (.branched taken)
        match if taken then thenBranch else elseBranch with
        | .absent => return .value .null
        | branch => execute setting fuel depth f branch
      | _ => fail .conditionOfIf loc
    | .whileStmt condition body loc => executeWhile setting fuel depth f condition body loc
    | .forStmt placeholder start stop body loc => do
      let f ← newFrame f
      let _ ← execute setting fuel depth f placeholder
      match placeholder.declaredName? with
      | some name =>
        let range ← rangeOf start stop
        executeFor setting fuel depth f name body loc range.start range.size
      | none => refuse .namelessPlaceholder
    | .fnDecl name params body loc => do
      declare f name (.fn ⟨name, params, body, f, loc⟩) loc
      trace setting (.defined name.shown params.length)
      return .value .null
    | .returnStmt value _ => do return .returned (← initial setting fuel depth f value)
    | _ => refuse .notStatement
termination_by structural fuel => fuel

def initial (setting : Setting) : (fuel : Nat) → (depth : Nat) → FrameId → Node → Run Value
  | 0, _, _, _ => throw .exhausted
  | _ + 1, _, _, .absent => pure .null
  | fuel + 1, depth, f, expr => evaluate setting fuel depth f expr
termination_by structural fuel => fuel

/-- Runs statements one after the other, up to the first that returns. -/
def executeAll (setting : Setting) : (fuel : Nat) → (depth : Nat) → FrameId → List Node → Run Completion
  | 0, _, _, _ => throw .exhausted
  | _ + 1, _, _, [] => pure (.value .null)
  | fuel + 1, depth, f, node :: rest => do
    match ← execute setting fuel depth f node with
    | .returned v => return .returned v
    | .value _ => executeAll setting fuel depth f rest
termination_by structural fuel => fuel

def executeWhile (setting : Setting) :
    (fuel : Nat) → (depth : Nat) → FrameId → (condition body : Node) → Option Loc → Run Completion
  | 0, _, _, _, _, _ => throw .exhausted
  | fuel + 1, depth, f, condition, body, loc => do
    match ← evaluate setting fuel depth f condition with
    | .bool true =>
      match ← execute setting fuel depth f body with
      | .returned v => return .returned v
      | .value _ => executeWhile setting fuel depth f condition body loc
    | .bool false => return .value .null
    | _ => fail .conditionOfWhile loc
termination_by structural fuel => fuel

/-- Runs a statement with a placeholder bound to `count` integers in turn, from `value` on. -/
def executeFor (setting : Setting) :
    (fuel : Nat) → (depth : Nat) → FrameId → (name : Json) → (body : Node) → Option Loc → (value : Int) →
      (count : Nat) → Run Completion
  | 0, _, _, _, _, _, _, _ => throw .exhausted
  | _ + 1, _, _, _, _, _, _, 0 => pure (.value .null)
  | fuel + 1, depth, f, name, body, loc, value, count + 1 => do
    assign f name (.int value) .lostPlaceholder loc
    trace setting (.stepped name.shown value)
    match ← execute setting fuel depth f body with
    | .returned v => return .returned v
    | .value _ => executeFor setting fuel depth f name body loc (value + 1) count
termination_by structural fuel => fuel

def evaluate (setting : Setting) : (fuel : Nat) → (depth : Nat) → FrameId → Node → Run Value
  | 0, _, _, _ => throw .exhausted
  | fuel + 1, depth, f, node =>
    match node with
    | .binary operator left right loc => do
      let a ← evaluate setting fuel depth f left
      if a.isNull then fail .uninitialized left.loc?
      else
        let b ← evaluate setting fuel depth f right
        if b.isNull then fail .uninitialized right.loc? else binary operator a b loc
    | .assign name value loc => do
      let v ← evaluate setting fuel depth f value
      assign f name v .undefinedAssignment loc
      return .null
    | .grouping expr _ => evaluate setting fuel depth f expr
    | .intLiteral value _ => pure (.int value)
    | .realLiteral value _ => pure (.real value)
    | .strLiteral value _ => pure (.ofJson value)
    | .identifier name loc => lookup f name loc
    | .unary operator right loc => do unary operator (← evaluate setting fuel depth f right) loc
    | .logical operator left right loc => do
      match ← evaluate setting fuel depth f left with
      | .bool a => if isDecided operator a then return .bool a else evaluate setting fuel depth f right
      | _ => fail (.conditionOf operator.shown) loc
    | .call callee args loc => do
      let callee ← evaluate setting fuel depth f callee
      let args ← evaluateAll setting fuel depth f args
      match callee.arity?, calleeName? callee with
      | some expected, some name =>
        if expected ≠ args.length then fail (.arity expected args.length) loc
        else do
          trace setting (.called name (args.map Value.text))
          if setting.callLimit ≤ depth then fail (.tooDeep name) loc
          else wrapped name loc (call setting fuel (depth + 1) callee args)
      | _, _ => if callee.isCallable then refuse .bareCallable else fail (.notCallable callee.typeName) loc
    | _ => refuse .notExpression
termination_by structural fuel => fuel

def evaluateAll (setting : Setting) : (fuel : Nat) → (depth : Nat) → FrameId → List Node → Run (List Value)
  | 0, _, _, _ => throw .exhausted
  | _ + 1, _, _, [] => pure []
  | fuel + 1, depth, f, node :: rest => do
    let v ← evaluate setting fuel depth f node
    return v :: (← evaluateAll setting fuel depth f rest)
termination_by structural fuel => fuel

/-- Applies a function to arguments. The body of a declared function runs in a new frame inside of the
one that the function was declared in. -/
def call (setting : Setting) : (fuel : Nat) → (depth : Nat) → Value → List Value → Run Value
  | 0, _, _, _ => throw .exhausted
  | fuel + 1, depth, .fn closure, args => do
    let f ← newFrame closure.frame
    bindParams f closure.loc closure.params args
    return (← executeAll setting fuel depth f closure.body).result
  | _ + 1, _, .native function, args => runNative function.action args
  | _ + 1, _, .callable, _ => refuse .bareCallable
  | _ + 1, _, callee, _ => fail (.notCallable callee.typeName) none
termination_by structural fuel => fuel

end

end PhyLang.Run
