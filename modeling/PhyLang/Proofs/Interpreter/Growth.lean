import PhyLang.Proofs.Interpreter.Agreement
import PhyLang.Proofs.Interpreter.Scopes
import PhyLang.Proofs.Scope.Growth

namespace PhyLang

/-- What runs keep of the frames that there were. -/
def Invariant.growth (before : Heap) : Invariant Unit :=
  { Invariant.scopes before with
    heap := before.GrowsTo
    writes := fun _ _ => True
    writes_mono := fun _ => id
    reads_of_writes := id
    push := fun grown _ => ⟨grown.trans (.push _ _), trivial⟩
    bind := fun grown _ _ _ => grown.trans (.bind _ _ _ _)
    rebind := fun grown _ _ _ => grown.trans (.rebind _ _ _ _)
    get := fun _ _ _ => trivial
    closure := fun _ _ => trivial }

namespace Run

variable {α : Type} {setting : Setting} {fuel depth : Nat} {f : FrameId} {m m' : Machine}

/-- A run whose heap grows. -/
def Grows (run : Run α) (m : Machine) : Prop := m.heap.GrowsTo (left (run m)).heap

theorem grows_of_keeps {run : Run α} {good : Nat → α → Prop}
    (keeps : (Invariant.growth m.heap).Keeps (fun _ => True) good m.heap.size (run m)) : Grows run m := by
  unfold Grows
  cases ran : run m with
  | ok a m' =>
    rw [ran] at keeps
    exact keeps.1
  | error stop m' =>
    rw [ran] at keeps
    exact keeps.1

theorem Grows.ok {run : Run α} {a : α} (grows : Grows run m) (ran : run m = .ok a m') : m.heap.GrowsTo m'.heap := by
  unfold Grows at grows
  rwa [ran] at grows

theorem trace_grows (event : Event) : Grows (trace setting event) m :=
  grows_of_keeps (Invariant.trace_keeps setting event (.refl _))

theorem newFrame_grows (parent : FrameId) : Grows (newFrame parent) m :=
  grows_of_keeps (Invariant.newFrame_keeps (.refl _) trivial)

theorem assign_grows (name : Json) (value : Value) (loc : Option Loc) :
    Grows (assign f name value .lostPlaceholder loc) m := by
  have located : (Invariant.growth m.heap).loc () loc := trivial
  exact grows_of_keeps (Invariant.assign_keeps name (.refl _) trivial trivial (fun _ => trivial) located)

theorem rangeOf_grows (start stop : Json) : Grows (rangeOf start stop) m :=
  grows_of_keeps (Invariant.rangeOf_keeps start stop (.refl _))

theorem bindParams_grows (loc : Option Loc) (params : List Json) (args : List Value) :
    Grows (bindParams f loc params args) m := by
  have located : (Invariant.growth m.heap).loc () loc := trivial
  exact grows_of_keeps (Invariant.bindParams_keeps located (.refl _) trivial fun _ _ => trivial)

/-- Nothing is asked of code. -/
theorem growth_node (before : Heap) (node : Node) : (Invariant.growth before).node () node := trivial

theorem evaluate_grows (node : Node) : Grows (evaluate setting fuel depth f node) m :=
  grows_of_keeps ((Invariant.preserved _ setting fuel).evaluate (.refl _) trivial (growth_node _ node))

theorem evaluateAll_grows (nodes : List Node) : Grows (evaluateAll setting fuel depth f nodes) m :=
  grows_of_keeps ((Invariant.preserved _ setting fuel).evaluateAll (.refl _) trivial fun node _ => growth_node _ node)

theorem execute_grows (node : Node) : Grows (execute setting fuel depth f node) m :=
  grows_of_keeps ((Invariant.preserved _ setting fuel).execute (.refl _) trivial (growth_node _ node))

theorem call_grows (function : Value) (args : List Value) : Grows (call setting fuel depth function args) m := by
  cases named : calleeName? function with
  | some name =>
    exact grows_of_keeps ((Invariant.preserved _ setting fuel).call (.refl _) trivial (fun _ _ => trivial) named)
  | none =>
    cases fuel with
    | zero => exact Heap.GrowsTo.refl _
    | succ fuel =>
      cases function with
      | fn | native => cases named
      | _ => exact Heap.GrowsTo.refl _

/-- Whatever runs, the heap only grows. -/
theorem answer_grows (setting : Setting) (task : Task) (m : Machine) : Grows (task.answer setting) m := by
  have preserved (fuel : Nat) := Invariant.preserved (.growth m.heap) setting fuel
  cases task with
  | execute fuel depth f node => exact execute_grows node
  | initial fuel depth f expr => exact grows_of_keeps ((preserved fuel).initial (.refl _) trivial (growth_node _ expr))
  | executeAll fuel depth f nodes =>
    exact grows_of_keeps ((preserved fuel).executeAll (.refl _) trivial fun node _ => growth_node _ node)
  | executeWhile fuel depth f condition body loc =>
    exact grows_of_keeps ((preserved fuel).executeWhile (.refl _) trivial (growth_node _ condition)
      (growth_node _ body) trivial)
  | executeFor fuel depth f name body loc value count =>
    exact grows_of_keeps ((preserved fuel).executeFor (.refl _) trivial (growth_node _ body) trivial)
  | evaluate fuel depth f node => exact evaluate_grows node
  | evaluateAll fuel depth f nodes => exact evaluateAll_grows nodes
  | call fuel depth callee args => exact call_grows callee args

end Run

/-- The frame in which the code of a task runs, or is to run: of a call, the one that the function was declared in. -/
def Task.frame? : Task → Option FrameId
  | .execute _ _ f _ | .initial _ _ f _ | .executeAll _ _ f _ | .executeWhile _ _ f _ _ _
  | .executeFor _ _ f _ _ _ _ _ | .evaluate _ _ f _ | .evaluateAll _ _ f _ => some f
  | .call _ _ (.fn closure) _ => some closure.frame
  | .call _ _ _ _ => none

namespace Point

/-- A point makes a function: it declares it. -/
inductive Makes : Point → Closure → Prop
  | fnDecl {fuel depth f name params body loc m} :
      Makes ⟨.execute (fuel + 1) depth f (.fnDecl name params body loc), m⟩ ⟨name, params, body, f, loc⟩

/-- The code of a point inside of a frame: what it runs, and what the functions run that it calls, if they were
declared inside of that frame. -/
inductive RunsInside (setting : Setting) (f : FrameId) : Point → Point → Prop
  | refl (p : Point) : RunsInside setting f p p
  | step {p q r : Point} (inside : RunsInside setting f p q) (start : q.Starts setting r)
      (called : ∀ fuel depth closure args, r.task = .call fuel depth (.fn closure) args →
        r.machine.heap.Within closure.frame f) : RunsInside setting f p r

section Starts

variable {setting : Setting} {p q : Point}

/-- Between a point and one that it starts, the heap only grows. -/
theorem Starts.grows (start : p.Starts setting q) : p.machine.heap.GrowsTo q.machine.heap := by
  cases start with
  | block entered | placeholder entered => exact (Run.newFrame_grows _).ok entered
  | ifBranch asked traced => exact ((Run.evaluate_grows _).ok asked).trans ((Run.trace_grows _).ok traced)
  | forStmt entered declared _ bounded =>
    exact ((Run.newFrame_grows _).ok entered).trans
      (((Run.execute_grows _).ok declared).trans ((Run.rangeOf_grows _ _).ok bounded))
  | laterNodes ran => exact (Run.execute_grows _).ok ran
  | whileBody asked => exact (Run.evaluate_grows _).ok asked
  | whileAgain asked ran => exact ((Run.evaluate_grows _).ok asked).trans ((Run.execute_grows _).ok ran)
  | forBody assigned traced =>
    exact ((Run.assign_grows _ _ _).ok assigned).trans ((Run.trace_grows _).ok traced)
  | forAgain assigned traced ran =>
    exact ((Run.assign_grows _ _ _).ok assigned).trans
      (((Run.trace_grows _).ok traced).trans ((Run.execute_grows _).ok ran))
  | binaryRight first | logicalRight first | args first | laterArgs first => exact (Run.evaluate_grows _).ok first
  | call first second _ _ traced =>
    exact ((Run.evaluate_grows _).ok first).trans
      (((Run.evaluateAll_grows _).ok second).trans ((Run.trace_grows _).ok traced))
  | body entered bound => exact ((Run.newFrame_grows _).ok entered).trans ((Run.bindParams_grows _ _ _).ok bound)
  | _ => exact .refl _

/-- A new frame lies inside of whatever the frame lies inside of that it was made in. -/
theorem within_newFrame {f g inner : FrameId} {m m' : Machine} (within : m.heap.Within g f)
    (entered : Run.newFrame g m = .ok inner m') : m'.heap.Within inner f := by
  cases entered
  exact within.push

/-- Code that runs inside of a frame starts code inside of it, except by calls. -/
theorem Starts.within (start : p.Starts setting q) {f : FrameId}
    (within : ∀ g, p.task.frame? = some g → p.machine.heap.Within g f)
    (called : ∀ fuel depth closure args, q.task = .call fuel depth (.fn closure) args →
      q.machine.heap.Within closure.frame f) {g : FrameId} (runs : q.task.frame? = some g) :
    q.machine.heap.Within g f := by
  have grows := start.grows
  cases start with
  | block entered | placeholder entered =>
    cases runs
    exact within_newFrame (within _ rfl) entered
  | forStmt entered declared _ bounded =>
    cases runs
    have inner := within_newFrame (within _ rfl) entered
    exact (inner.grow ((Run.execute_grows _).ok declared)).grow ((Run.rangeOf_grows _ _).ok bounded)
  | body entered bound =>
    cases runs
    exact (within_newFrame (within _ rfl) entered).grow ((Run.bindParams_grows _ _ _).ok bound)
  | @call _ _ _ _ _ _ _ function =>
    cases function with
    | fn closure =>
      cases runs
      exact called _ _ _ _ rfl
    | _ => cases runs
  | _ =>
    cases runs
    exact (within _ rfl).grow grows

theorem RunsInside.within {f : FrameId} (inside : RunsInside setting f p q)
    (within : ∀ g, p.task.frame? = some g → p.machine.heap.Within g f) {g : FrameId}
    (runs : q.task.frame? = some g) : q.machine.heap.Within g f := by
  induction inside generalizing g with
  | refl => exact within g runs
  | step _ start called ih => exact start.within (fun _ => ih) called runs

theorem RunsInside.grows {f : FrameId} (inside : RunsInside setting f p q) :
    p.machine.heap.GrowsTo q.machine.heap := by
  induction inside with
  | refl => exact .refl _
  | step _ start _ ih => exact ih.trans start.grows

/-- The functions that code inside of a frame makes capture frames inside of it. -/
theorem RunsInside.captured {f : FrameId} (inside : RunsInside setting f p q)
    (within : ∀ g, p.task.frame? = some g → p.machine.heap.Within g f) {closure : Closure} (makes : q.Makes closure) :
    q.machine.heap.Within closure.frame f := by
  cases makes
  exact inside.within within rfl

end Starts

end Point

end PhyLang
