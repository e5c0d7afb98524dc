import PhyLang.Proofs.Interpreter.IntegerRange
import PhyLang.Proofs.Interpreter.Isolation

namespace PhyLang

/-- A machine with a view of its output. -/
def Machine.seen (view : List Output → List Output) (m : Machine) : Machine := { m with output := view m.output }

/-- The second setting puts out, of what the first one does, all that is in view, and it allows as many calls or
more. Printed lines are always in view. -/
structure Setting.Shows (view : List Output → List Output) (fuller bare : Setting) : Prop where
  printed : ∀ text lines, view (.printed text :: lines) = .printed text :: view lines
  shown : ∀ (event : Event) lines, event.level ≤ bare.level →
    event.level ≤ fuller.level ∧ view (.traced event :: lines) = .traced event :: view lines
  hidden : ∀ (event : Event) lines, event.level ≤ fuller.level → ¬event.level ≤ bare.level →
    view (.traced event :: lines) = view lines
  callLimit_le : fuller.callLimit ≤ bare.callLimit

namespace Run

variable {α β : Type} {view : List Output → List Output} {m : Machine}

theorem bind_ok {run : Run α} {next : α → Run β} {m' : Machine} {a : α} (ran : run m = .ok a m') :
    (run >>= next) m = next a m' := by
  change EStateM.bind run next m = next a m'
  unfold EStateM.bind
  rw [ran]

theorem bind_error {run : Run α} {next : α → Run β} {m' : Machine} {stop : Stop}
    (stopped : run m = .error stop m') : (run >>= next) m = .error stop m' := by
  change EStateM.bind run next m = .error stop m'
  unfold EStateM.bind
  rw [stopped]

/-- The branch that an `if` statement takes runs, unless it is missing. -/
theorem branch_eq (setting : Setting) (fuel depth : Nat) (f : FrameId) {branch : Node} : branch ≠ .absent →
    (match branch with
      | .absent => return Completion.value .null
      | branch => execute setting fuel depth f branch) = execute setting fuel depth f branch := by
  intro present
  cases branch with
  | absent => exact absurd rfl present
  | _ => rfl

theorem initial_eq (setting : Setting) (fuel depth : Nat) (f : FrameId) {expr : Node} (present : expr ≠ .absent) :
    initial setting (fuel + 1) depth f expr = evaluate setting fuel depth f expr := by
  cases expr with
  | absent => exact absurd rfl present
  | _ => rfl

/-- The end of a run with a view of the output. -/
def seen (view : List Output → List Output) : EStateM.Result Stop Machine α → EStateM.Result Stop Machine α
  | .ok a m => .ok a (m.seen view)
  | .error stop m => .error stop (m.seen view)

theorem seen_id (ended : EStateM.Result Stop Machine α) : seen id ended = ended := by
  cases ended <;> rfl

theorem left_seen (ended : EStateM.Result Stop Machine α) : left (seen view ended) = (left ended).seen view := by
  cases ended <;> rfl

/-- The second run does on a machine what the first one does, as far as the output is in view. -/
def Agrees (view : List Output → List Output) (run other : Run α) (m : Machine) : Prop :=
  other (m.seen view) = seen view (run m)

theorem Agrees.bind {run other : Run α} {next next' : α → Run β} (first : Agrees view run other m)
    (second : ∀ a m', run m = .ok a m' → Agrees view (next a) (next' a) m') :
    Agrees view (run >>= next) (other >>= next') m := by
  unfold Agrees at *
  cases ran : run m with
  | ok a m' =>
    rw [ran] at first
    rw [bind_ok ran, bind_ok first]
    exact second a m' ran
  | error stop m' =>
    rw [ran] at first
    rw [bind_error ran]
    exact bind_error first

theorem Agrees.pure (a : α) : Agrees view (Pure.pure a : Run α) (Pure.pure a) m := rfl

theorem fail_agrees (cause : Cause) (loc : Option Loc) : Agrees view (fail cause loc : Run α) (fail cause loc) m := rfl

theorem refuse_agrees (f : Fault) : Agrees view (refuse f : Run α) (refuse f) m := rfl

theorem put_agrees {line : Output} (visible : view (line :: m.output) = line :: view m.output) :
    Agrees view (put line) (put line) m := by
  change EStateM.Result.ok () { m with output := line :: view m.output } = .ok () (Machine.seen view _)
  simp only [Machine.seen, visible]

/-- An event that is out of view changes the fuller trace only. -/
theorem trace_agrees {fuller bare : Setting} (shows : Setting.Shows view fuller bare) (event : Event) :
    Agrees view (trace fuller event) (trace bare event) m := by
  unfold trace
  by_cases visible : event.level ≤ bare.level
  · obtain ⟨recorded, kept⟩ := shows.shown event m.output visible
    rw [if_pos visible, if_pos recorded]
    exact put_agrees kept
  · rw [if_neg visible]
    split
    next recorded =>
      change EStateM.Result.ok () (m.seen view) = .ok () (Machine.seen view _)
      simp only [Machine.seen, shows.hidden event m.output recorded visible]
    next => exact .pure ()

theorem newFrame_agrees (parent : FrameId) : Agrees view (newFrame parent) (newFrame parent) m := rfl

theorem keyOf_agrees (name : Json) : Agrees view (keyOf name) (keyOf name) m := by
  unfold keyOf
  split <;> rfl

theorem declare_agrees (f : FrameId) (name : Json) (value : Value) (loc : Option Loc) :
    Agrees view (declare f name value loc) (declare f name value loc) m := by
  unfold declare
  refine (keyOf_agrees name).bind fun key m' _ => ?_
  change (if m'.heap.binds f key then fail _ loc else modify _ : Run Unit) (m'.seen view) =
    seen view ((if m'.heap.binds f key then fail _ loc else modify _ : Run Unit) m')
  split <;> rfl

theorem assign_agrees (f : FrameId) (name : Json) (value : Value) (missing : String → Cause) (loc : Option Loc) :
    Agrees view (assign f name value missing loc) (assign f name value missing loc) m := by
  unfold Agrees
  cases keyed : Key.ofJson? name with
  | none =>
    unfold assign keyOf
    rw [keyed]
    rfl
  | some key =>
    have heap : (m.seen view).heap = m.heap := rfl
    rw [assign_eq keyed, assign_eq keyed, heap]
    cases m.heap.holder? f key <;> rfl

theorem lookup_agrees (f : FrameId) (name : Json) (loc : Option Loc) :
    Agrees view (lookup f name loc) (lookup f name loc) m := by
  unfold Agrees
  cases keyed : Key.ofJson? name with
  | none =>
    unfold lookup keyOf
    rw [keyed]
    rfl
  | some key =>
    cases reserved : reserved? key with
    | some value =>
      rw [lookup_reserved keyed reserved, lookup_reserved keyed reserved]
      rfl
    | none =>
      have heap : (m.seen view).heap = m.heap := rfl
      rw [lookup_eq keyed reserved, lookup_eq keyed reserved, heap]
      cases m.heap.get? f key <;> rfl

theorem operated_agrees (result : Operated Value) (cause : OperationError → Cause) (loc : Option Loc) :
    Agrees view (operated result cause loc) (operated result cause loc) m := by
  unfold operated
  split <;> rfl

theorem binary_agrees (operator : Json) (left right : Value) (loc : Option Loc) :
    Agrees view (binary operator left right loc) (binary operator left right loc) m := by
  unfold binary
  split
  · exact operated_agrees _ _ loc
  all_goals rfl

theorem unary_agrees (operator : Json) (value : Value) (loc : Option Loc) :
    Agrees view (unary operator value loc) (unary operator value loc) m := by
  unfold unary
  split
  case h_6 => exact operated_agrees _ _ loc
  all_goals rfl

theorem boundOf_agrees (bound : Json) : Agrees view (boundOf bound) (boundOf bound) m := by
  unfold boundOf
  split <;> rfl

theorem rangeOf_agrees (start stop : Json) : Agrees view (rangeOf start stop) (rangeOf start stop) m := by
  unfold rangeOf
  split
  · exact (boundOf_agrees start).bind fun _ _ _ => .pure _
  · exact (boundOf_agrees stop).bind fun _ _ _ => (boundOf_agrees start).bind fun _ _ _ => .pure _

theorem runNative_agrees (action : NativeAction) (args : List Value) :
    Agrees view (runNative action args) (runNative action args) m := by
  cases action with
  | first => cases args <;> rfl
  | _ => rfl

theorem bindParams_agrees (f : FrameId) (loc : Option Loc) (params : List Json) (args : List Value) :
    Agrees view (bindParams f loc params args) (bindParams f loc params args) m := by
  induction params generalizing args m with
  | nil => rfl
  | cons param params ih =>
    cases args with
    | nil => rfl
    | cons arg args => exact (declare_agrees f param arg loc).bind fun _ _ _ => ih args

theorem Agrees.wrapped {run other : Run α} (name : String) (loc : Option Loc) (agrees : Agrees view run other m) :
    Agrees view (wrapped name loc run) (wrapped name loc other) m := by
  unfold Agrees Run.wrapped
  rw [agrees]
  cases run m with
  | ok a m' => rfl
  | error stop m' => cases stop <;> rfl

end Run

namespace Task

/-- The number of calls that are active when a task starts. -/
def depth : Task → Nat
  | .execute _ depth .. | .initial _ depth .. | .executeAll _ depth .. | .executeWhile _ depth ..
  | .executeFor _ depth .. | .evaluate _ depth .. | .evaluateAll _ depth .. | .call _ depth .. => depth

/-- What a task gives when it ends. -/
def Answer : Task → Type
  | .execute .. | .executeAll .. | .executeWhile .. | .executeFor .. => Completion
  | .initial .. | .evaluate .. | .call .. => Value
  | .evaluateAll .. => List Value

/-- The run of a task. -/
def answer (setting : Setting) : (task : Task) → Run task.Answer
  | .execute fuel depth f node => Run.execute setting fuel depth f node
  | .initial fuel depth f expr => Run.initial setting fuel depth f expr
  | .executeAll fuel depth f nodes => Run.executeAll setting fuel depth f nodes
  | .executeWhile fuel depth f condition body loc => Run.executeWhile setting fuel depth f condition body loc
  | .executeFor fuel depth f name body loc value count =>
    Run.executeFor setting fuel depth f name body loc value count
  | .evaluate fuel depth f node => Run.evaluate setting fuel depth f node
  | .evaluateAll fuel depth f nodes => Run.evaluateAll setting fuel depth f nodes
  | .call fuel depth callee args => Run.call setting fuel depth callee args

end Task

namespace Point

open Run (trace calleeName?)

/-- A call at a point is refused, for the limit of calls is reached. The name is that of the function, the location
that of the call, and the machine the one on which the run stops. -/
inductive Overflows (setting : Setting) : Point → String → Option Loc → Machine → Prop
  | call {fuel depth f callee args loc m function m' values m'' name m'''}
      (first : Run.evaluate setting fuel depth f callee m = .ok function m')
      (second : Run.evaluateAll setting fuel depth f args m' = .ok values m'')
      (accepted : function.arity? = some (values.length : Int)) (named : calleeName? function = some name)
      (traced : trace setting (.called name (values.map Value.text)) m'' = .ok () m''')
      (full : setting.callLimit ≤ depth) :
      Overflows setting ⟨.evaluate (fuel + 1) depth f (.call callee args loc), m⟩ name loc m'''

theorem Overflows.full {setting : Setting} {p : Point} {name : String} {loc : Option Loc} {m : Machine}
    (overflows : p.Overflows setting name loc m) : setting.callLimit ≤ p.task.depth := by
  cases overflows with
  | call _ _ _ _ _ full => exact full

/-- The task of a point goes the same way under both settings. -/
def Agrees (view : List Output → List Output) (fuller bare : Setting) (p : Point) : Prop :=
  Run.Agrees view (p.task.answer fuller) (p.task.answer bare) p.machine

section Steps

variable {view : List Output → List Output} {fuller bare : Setting} {fuel depth : Nat} {f : FrameId} {m : Machine}

/-- The branch that an `if` statement takes. -/
theorem branch_agrees (branch : Node) :
    (branch ≠ .absent → Agrees view fuller bare ⟨.execute fuel depth f branch, m⟩) →
    Run.Agrees view
      (match branch with
      | .absent => return Completion.value .null
      | branch => Run.execute fuller fuel depth f branch)
      (match branch with
      | .absent => return Completion.value .null
      | branch => Run.execute bare fuel depth f branch) m := by
  intro agrees
  cases branch with
  | absent => exact .pure _
  | _ => exact agrees nofun

theorem execute_agrees (shows : Setting.Shows view fuller bare) (node : Node)
    (starts : ∀ {q}, Starts fuller ⟨.execute (fuel + 1) depth f node, m⟩ q → q.Agrees view fuller bare) :
    Agrees view fuller bare ⟨.execute (fuel + 1) depth f node, m⟩ := by
  unfold Agrees Task.answer Run.execute
  cases node with
  | exprStmt expr _ => exact (starts .exprStmt).bind fun v _ _ => .pure _
  | printStmt expr _ =>
    exact (starts .printStmt).bind fun v _ _ => (Run.put_agrees (shows.printed _ _)).bind fun _ _ _ => .pure _
  | varDecl name value loc =>
    refine (starts .varDecl).bind fun v _ _ => ?_
    exact (Run.declare_agrees f name v loc).bind fun _ _ _ => (Run.trace_agrees shows _).bind fun _ _ _ => .pure _
  | block nodes _ => exact (Run.newFrame_agrees f).bind fun inner _ entered => starts (.block entered)
  | ifStmt condition thenBranch elseBranch loc =>
    refine (starts .ifCondition).bind fun v m' asked => ?_
    cases v with
    | bool taken =>
      refine (Run.trace_agrees shows _).bind fun _ m'' traced => ?_
      exact branch_agrees _ fun present => starts (.ifBranch asked traced present)
    | _ => exact Run.fail_agrees _ loc
  | whileStmt condition body loc => exact starts .whileStmt
  | forStmt placeholder start stop body loc =>
    refine (Run.newFrame_agrees f).bind fun inner m' entered => ?_
    refine (starts (.placeholder entered)).bind fun c m'' declared => ?_
    cases named : placeholder.declaredName? with
    | none => exact Run.refuse_agrees _
    | some name =>
      exact (Run.rangeOf_agrees start stop).bind fun range _ bounded => starts (.forStmt entered declared named bounded)
  | fnDecl name params body loc =>
    exact (Run.declare_agrees f name _ loc).bind fun _ _ _ => (Run.trace_agrees shows _).bind fun _ _ _ => .pure _
  | returnStmt value _ => exact (starts .returnStmt).bind fun v _ _ => .pure _
  | _ => exact Run.refuse_agrees _

theorem initial_agrees (expr : Node)
    (starts : ∀ {q}, Starts fuller ⟨.initial (fuel + 1) depth f expr, m⟩ q → q.Agrees view fuller bare) :
    Agrees view fuller bare ⟨.initial (fuel + 1) depth f expr, m⟩ := by
  cases expr with
  | absent => exact Run.Agrees.pure _
  | _ =>
    have evaluated := starts (.initial nofun)
    exact evaluated

theorem executeAll_agrees (nodes : List Node)
    (starts : ∀ {q}, Starts fuller ⟨.executeAll (fuel + 1) depth f nodes, m⟩ q → q.Agrees view fuller bare) :
    Agrees view fuller bare ⟨.executeAll (fuel + 1) depth f nodes, m⟩ := by
  cases nodes with
  | nil => exact Run.Agrees.pure _
  | cons node rest =>
    refine Run.Agrees.bind (starts .firstNode) fun c m' ran => ?_
    cases c with
    | returned v => exact .pure _
    | value v => exact starts (.laterNodes ran)

theorem executeWhile_agrees (condition body : Node) (loc : Option Loc)
    (starts : ∀ {q}, Starts fuller ⟨.executeWhile (fuel + 1) depth f condition body loc, m⟩ q →
      q.Agrees view fuller bare) :
    Agrees view fuller bare ⟨.executeWhile (fuel + 1) depth f condition body loc, m⟩ := by
  refine Run.Agrees.bind (starts .whileCondition) fun v m' asked => ?_
  cases v with
  | bool taken =>
    cases taken with
    | false => exact .pure _
    | true =>
      refine Run.Agrees.bind (starts (.whileBody asked)) fun c m'' ran => ?_
      cases c with
      | returned v => exact .pure _
      | value v => exact starts (.whileAgain asked ran)
  | _ => exact Run.fail_agrees _ loc

theorem executeFor_agrees (shows : Setting.Shows view fuller bare) (name : Json) (body : Node) (loc : Option Loc)
    (value : Int) (count : Nat)
    (starts : ∀ {q}, Starts fuller ⟨.executeFor (fuel + 1) depth f name body loc value count, m⟩ q →
      q.Agrees view fuller bare) :
    Agrees view fuller bare ⟨.executeFor (fuel + 1) depth f name body loc value count, m⟩ := by
  cases count with
  | zero => exact Run.Agrees.pure _
  | succ count =>
    refine (Run.assign_agrees f name _ _ loc).bind fun _ m' assigned => ?_
    refine (Run.trace_agrees shows _).bind fun _ m'' traced => ?_
    refine Run.Agrees.bind (starts (.forBody assigned traced)) fun c m''' ran => ?_
    cases c with
    | returned v => exact .pure _
    | value v => exact starts (.forAgain assigned traced ran)

/-- Calls are where the limits of the settings matter. -/
theorem callNode_agrees (shows : Setting.Shows view fuller bare) (callee : Node) (args : List Node) (loc : Option Loc)
    (refused : ∀ {name at? m'}, Overflows fuller ⟨.evaluate (fuel + 1) depth f (.call callee args loc), m⟩ name at? m' →
      bare.callLimit ≤ depth)
    (starts : ∀ {q}, Starts fuller ⟨.evaluate (fuel + 1) depth f (.call callee args loc), m⟩ q →
      q.Agrees view fuller bare) :
    Agrees view fuller bare ⟨.evaluate (fuel + 1) depth f (.call callee args loc), m⟩ := by
  unfold Agrees Task.answer Run.evaluate
  refine Run.Agrees.bind (starts .callee) fun function m' first => ?_
  refine Run.Agrees.bind (starts (.args first)) fun values m'' second => ?_
  split
  next expected name accepted named =>
    split
    · exact Run.fail_agrees _ loc
    next matching =>
      rw [not_not] at matching
      refine (Run.trace_agrees shows _).bind fun _ m''' traced => ?_
      rw [matching] at accepted
      by_cases full : fuller.callLimit ≤ depth
      · rw [if_pos full, if_pos (refused (.call first second accepted named traced full))]
        exact Run.fail_agrees _ loc
      · have allowed : depth < fuller.callLimit := Nat.lt_of_not_le full
        rw [if_neg full, if_neg (Nat.not_le.mpr (Nat.lt_of_lt_of_le allowed shows.callLimit_le))]
        exact Run.Agrees.wrapped name loc (starts (.call first second accepted named traced allowed))
  next =>
    split
    · exact Run.refuse_agrees _
    · exact Run.fail_agrees _ loc

theorem evaluate_agrees (shows : Setting.Shows view fuller bare) (node : Node)
    (refused : ∀ {name at? m'}, Overflows fuller ⟨.evaluate (fuel + 1) depth f node, m⟩ name at? m' →
      bare.callLimit ≤ depth)
    (starts : ∀ {q}, Starts fuller ⟨.evaluate (fuel + 1) depth f node, m⟩ q → q.Agrees view fuller bare) :
    Agrees view fuller bare ⟨.evaluate (fuel + 1) depth f node, m⟩ := by
  cases node with
  | call callee args loc => exact callNode_agrees shows callee args loc refused starts
  | binary operator left right loc =>
    refine Run.Agrees.bind (starts .binaryLeft) fun a m' first => ?_
    cases present : a.isNull with
    | true => exact Run.fail_agrees _ _
    | false =>
      refine Run.Agrees.bind (starts (.binaryRight first present)) fun b _ _ => ?_
      split
      · exact Run.fail_agrees _ _
      · exact Run.binary_agrees operator a b loc
  | assign name value loc =>
    exact Run.Agrees.bind (starts .assign) fun v _ _ =>
      (Run.assign_agrees f name v _ loc).bind fun _ _ _ => .pure _
  | grouping expr _ =>
    have inner := starts .grouping
    exact inner
  | intLiteral | realLiteral | strLiteral => exact Run.Agrees.pure _
  | identifier name loc => exact Run.lookup_agrees f name loc
  | unary operator right loc => exact Run.Agrees.bind (starts .unary) fun v _ _ => Run.unary_agrees operator v loc
  | logical operator left right loc =>
    refine Run.Agrees.bind (starts .logicalLeft) fun a m' first => ?_
    cases a with
    | bool a =>
      cases undecided : Run.isDecided operator a with
      | true =>
        simp only [undecided, if_true]
        exact .pure _
      | false =>
        simp only [undecided]
        exact starts (.logicalRight first undecided)
    | _ => exact Run.fail_agrees _ loc
  | _ => exact Run.refuse_agrees _

theorem evaluateAll_agrees (nodes : List Node)
    (starts : ∀ {q}, Starts fuller ⟨.evaluateAll (fuel + 1) depth f nodes, m⟩ q → q.Agrees view fuller bare) :
    Agrees view fuller bare ⟨.evaluateAll (fuel + 1) depth f nodes, m⟩ := by
  cases nodes with
  | nil => exact Run.Agrees.pure _
  | cons node rest =>
    refine Run.Agrees.bind (starts .firstArg) fun v m' first => ?_
    exact Run.Agrees.bind (starts (.laterArgs first)) fun _ _ _ => .pure _

theorem call_agrees (callee : Value) (args : List Value)
    (starts : ∀ {q}, Starts fuller ⟨.call (fuel + 1) depth callee args, m⟩ q → q.Agrees view fuller bare) :
    Agrees view fuller bare ⟨.call (fuel + 1) depth callee args, m⟩ := by
  cases callee with
  | fn closure =>
    refine (Run.newFrame_agrees closure.frame).bind fun inner m' entered => ?_
    refine (Run.bindParams_agrees inner closure.loc closure.params args).bind fun _ m'' bound => ?_
    exact Run.Agrees.bind (starts (.body entered bound)) fun _ _ _ => .pure _
  | native function => exact Run.runNative_agrees function.action args
  | callable => exact Run.refuse_agrees _
  | _ => exact Run.fail_agrees _ none

end Steps

variable {view : List Output → List Output} {fuller bare : Setting}

/-- A point goes the same way under both settings, provided that the points it starts do. -/
theorem Agrees.of_starts (shows : Setting.Shows view fuller bare) {p : Point}
    (refused : ∀ {name loc m}, p.Overflows fuller name loc m → bare.callLimit ≤ p.task.depth)
    (starts : ∀ {q}, p.Starts fuller q → q.Agrees view fuller bare) : p.Agrees view fuller bare := by
  obtain ⟨task, m⟩ := p
  by_cases spent : task.fuel = 0
  · -- A task without fuel stops at once under both settings.
    cases task <;> cases spent <;> rfl
  · obtain ⟨fuel, left⟩ := Nat.exists_eq_succ_of_ne_zero spent
    cases task with
    | execute =>
      cases left
      exact execute_agrees shows _ starts
    | initial =>
      cases left
      exact initial_agrees _ starts
    | executeAll =>
      cases left
      exact executeAll_agrees _ starts
    | executeWhile =>
      cases left
      exact executeWhile_agrees _ _ _ starts
    | executeFor =>
      cases left
      exact executeFor_agrees shows _ _ _ _ _ starts
    | evaluate =>
      cases left
      exact evaluate_agrees shows _ refused starts
    | evaluateAll =>
      cases left
      exact evaluateAll_agrees _ starts
    | call =>
      cases left
      exact call_agrees _ _ starts

/-- A point goes the same way under both settings if both refuse the calls that the first one does. -/
theorem agrees (shows : Setting.Shows view fuller bare) {p : Point}
    (refused : ∀ {q}, Relation.ReflTransGen (Starts fuller) p q → ∀ {name loc m}, q.Overflows fuller name loc m →
      bare.callLimit ≤ q.task.depth) : p.Agrees view fuller bare := by
  induction fuel : p.task.fuel using Nat.strong_induction_on generalizing p with
  | _ fuel ih =>
    refine .of_starts shows (refused .refl) fun start => ?_
    exact ih _ (by rw [← fuel]; exact start.fuel_lt) (fun reached => refused (.head start reached)) rfl

end Point

/-- A program runs the same way under both settings if both refuse the calls that the first one does. -/
theorem Run.interpretFrom_agrees {view : List Output → List Output} {fuller bare : Setting}
    (shows : Setting.Shows view fuller bare) {fuel : Nat} {program : Program} {m : Machine}
    (refused : ∀ {p}, program.Reaches fuller fuel m p → ∀ {name loc m'}, p.Overflows fuller name loc m' →
      bare.callLimit ≤ p.task.depth) (result : Value) :
    Agrees view (interpretFrom fuller fuel result program) (interpretFrom bare fuel result program) m := by
  induction program generalizing m result with
  | nil => exact .pure result
  | cons node rest ih =>
    have first : Point.Agrees view fuller bare ⟨.execute fuel 0 globalFrame node, m⟩ :=
      Point.agrees shows fun reached => refused (Program.Reaches.statement.trans reached)
    refine Run.Agrees.bind first fun c m' ran => ?_
    cases c with
    | returned v => exact fail_agrees _ none
    | value v => exact ih (fun reached => refused (.later ran reached)) v

end PhyLang
