import PhyLang.Interpreter.Error
import PhyLang.Interpreter.Event
import PhyLang.Scope.Heap

namespace PhyLang

/-- What the clock of the host shows, reading by reading. -/
abbrev Clock := Nat → Float

/-- A clock that is read every microsecond. -/
def Clock.steady (start : Float) : Clock := fun count => start + count.toFloat * 0.000001

/-- The state of a run. Output and trail are held with the latest entry first. The clock was read `taken`
times, so that `clock taken` is what it shows next. -/
structure Machine where
  heap : Heap := .empty
  output : List Output := []
  clock : Clock := .steady 1
  taken : Nat := 0
  trail : List (List Value) := []

instance : Inhabited Machine := ⟨{}⟩

/-- What does not change during a run: the level of detail of the trace, and the greatest number of
calls that may be active at once. -/
structure Setting where
  level : Int := 0
  callLimit : Nat := 1000
  deriving Repr, Inhabited

abbrev Run := EStateM Stop Machine

/-- The end of a statement: it completes with a value, or returns a value from the function that it
stands in. -/
inductive Completion
  | value (v : Value)
  | returned (v : Value)
  deriving Inhabited

def Completion.ofValue : Value → Completion
  | .signal v => .returned v
  | v => .value v

def Completion.result : Completion → Value
  | .returned v => v
  | .value _ => .null

namespace Run

def fail {α : Type} (cause : Cause) (loc : Option Loc) : Run α := throw (.error (.raised cause loc))

def refuse {α : Type} (f : Fault) : Run α := throw (.fault f)

def put (line : Output) : Run Unit := modify fun m => { m with output := line :: m.output }

/-- Adds an event to the trace, if it belongs to the level of detail. -/
def trace (setting : Setting) (event : Event) : Run Unit :=
  if event.level ≤ setting.level then put (.traced event) else pure ()

def newFrame (parent : FrameId) : Run FrameId := do
  let f := (← get).heap.size
  modify fun m => { m with heap := m.heap.push (some parent) }
  return f

def keyOf (name : Json) : Run Key :=
  match Key.ofJson? name with
  | some key => pure key
  | none => refuse .unusableName

def declare (f : FrameId) (name : Json) (value : Value) (loc : Option Loc) : Run Unit := do
  let key ← keyOf name
  if (← get).heap.binds f key then fail (.declaredTwice name.shown) loc
  else modify fun m => { m with heap := m.heap.bind f key value }

/-- Assigns to a name that is looked up from a frame; `missing` is the cause of failure if there is no
such name. -/
def assign (f : FrameId) (name : Json) (value : Value) (missing : String → Cause) (loc : Option Loc) : Run Unit := do
  let key ← keyOf name
  match (← get).heap.holder? f key with
  | some holder => modify fun m => { m with heap := m.heap.rebind holder key value }
  | none => fail (missing name.shown) loc

/-- The names that stand for values everywhere. -/
def reserved? : Key → Option Value
  | .text "true" => some (.bool true)
  | .text "false" => some (.bool false)
  | .text "null" => some .null
  | _ => none

def lookup (f : FrameId) (name : Json) (loc : Option Loc) : Run Value := do
  let key ← keyOf name
  match reserved? key with
  | some value => return value
  | none =>
    match (← get).heap.get? f key with
    | some value => return value
    | none => fail (.undefinedVariable name.shown) loc

def operated (result : Operated Value) (cause : OperationError → Cause) (loc : Option Loc) : Run Value :=
  match result with
  | .ok value => pure value
  | .error (.error e) => fail (cause e) loc
  | .error (.fault f) => refuse f

def runNative (action : NativeAction) (args : List Value) : Run Value :=
  match action with
  | .clock => do
    let m ← get
    set { m with taken := m.taken + 1 }
    return .real (m.clock m.taken)
  | .first =>
    match args with
    | arg :: _ => pure arg
    | [] => refuse .missingArgument
  | .count => do
    modify fun m => { m with trail := args :: m.trail }
    return .int (← get).trail.length
  | .nothing => pure .null
  | .fail kind message => fail (.host kind message) none

end Run

end PhyLang
