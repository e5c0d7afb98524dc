import PhyLang.Proofs.Interpreter.Fuel
import PhyLang.Proofs.Interpreter.Growth

namespace PhyLang

/-- A loop over a range of integers whose placeholder is declared without a value. With one bound, the range starts
at zero. -/
structure CountedLoop where
  name : Json
  key : Key
  keyed : Key.ofJson? name = some key
  first : Int
  last : Option Int
  body : Node
  declaredAt : Option Loc
  loc : Option Loc

/-- The machine after an event, which is put out if it belongs to the level of detail. -/
def Machine.traced (setting : Setting) (event : Event) (m : Machine) : Machine :=
  if event.level ≤ setting.level then { m with output := .traced event :: m.output } else m

/-- The end of a statement that ends the sequence that it stands in: it returns or fails. -/
def Completion.Leaves : EStateM.Result Stop Machine Completion → Prop
  | .ok (.value _) _ => False
  | _ => True

namespace CountedLoop

/-- The statement of a loop. -/
def node (loop : CountedLoop) : Node :=
  .forStmt (.varDecl loop.name .absent loop.declaredAt) (.int loop.first)
    (match loop.last with
      | none => .null
      | some n => .int n)
    loop.body loop.loc

/-- The least integer of the range. -/
def low (loop : CountedLoop) : Int :=
  match loop.last with
  | none => 0
  | some _ => loop.first

/-- The greatest integer of the range. -/
def high (loop : CountedLoop) : Int := loop.last.getD loop.first

/-- The number of integers in the range. -/
def count (loop : CountedLoop) : Nat := (loop.high - loop.low + 1).toNat

section Runs

variable (loop : CountedLoop) (setting : Setting) (depth : Nat)

/-- The machine on which the first execution is prepared: the loop has a new frame, in which the placeholder is
declared. -/
def entered (f : FrameId) (m : Machine) : Machine :=
  Machine.traced setting (.declared loop.name.shown Value.null.typeName Value.null.text)
    { m with heap := (m.heap.push (some f)).bind m.heap.size loop.key .null }

/-- The machine on which an execution of the body starts, by the number of executions before it. -/
def stepped (frame : FrameId) (k : Nat) (m : Machine) : Machine :=
  Machine.traced setting (.stepped loop.name.shown (loop.low + k))
    { m with heap := m.heap.rebind frame loop.key (.int (loop.low + k)) }

/-- An execution of the body, by fuel. -/
def execution (frame : FrameId) (k : Nat) (m : Machine) (fuel : Nat) : EStateM.Result Stop Machine Completion :=
  Run.execute setting fuel depth frame loop.body (loop.stepped setting frame k m)

/-- Executions of the body one after the other, from one number up to another one, all of which complete. -/
inductive Iterates (frame : FrameId) : Nat → Machine → Nat → Machine → Prop
  | none {k : Nat} {m : Machine} : Iterates frame k m k m
  | next {k j : Nat} {m m' m'' : Machine} {v : Value}
      (ran : Run.Settles (loop.execution setting depth frame k m) (.ok (.value v) m'))
      (rest : Iterates frame (k + 1) m' j m'') : Iterates frame k m j m''

/-- A loop counts: its body runs once for each integer of its range, in order. -/
structure Counts (f : FrameId) (m : Machine) : Prop where
  /-- The loop ends with null after an execution for each integer, or as the first execution ends that returns or
  fails. -/
  ends (result : EStateM.Result Stop Machine Completion) :
    Run.Settles (fun fuel => Run.execute setting fuel depth f loop.node m) result ↔
      (∃ m', loop.Iterates setting depth m.heap.size 0 (loop.entered setting f m) loop.count m' ∧
        result = .ok (.value .null) m') ∨
      ∃ k < loop.count, ∃ m', loop.Iterates setting depth m.heap.size 0 (loop.entered setting f m) k m' ∧
        Run.Settles (loop.execution setting depth m.heap.size k m') result ∧ Completion.Leaves result
  /-- Whatever the executions before have assigned, the next one starts with the placeholder bound to the next
  integer, in the frame of the loop. -/
  bound {k : Nat} {m' : Machine} : loop.Iterates setting depth m.heap.size 0 (loop.entered setting f m) k m' →
    (loop.stepped setting m.heap.size k m').heap.valueIn? m.heap.size loop.key = some (.int (loop.low + k)) ∧
    (loop.stepped setting m.heap.size k m').heap.get? m.heap.size loop.key = some (.int (loop.low + k))
  /-- The placeholder is never lost. -/
  assigns {k : Nat} {m' : Machine} (value : Value) :
    loop.Iterates setting depth m.heap.size 0 (loop.entered setting f m) k m' →
    Run.assign m.heap.size loop.name value .lostPlaceholder loop.loc m' =
      .ok () { m' with heap := m'.heap.rebind m.heap.size loop.key value }
  /-- The functions that the body makes capture frames inside of that of the loop. At any time from then on, all
  frames inside of theirs from which the placeholder is not hidden share the binding of the loop. -/
  shared {k fuel : Nat} {m' : Machine} {q : Point} {closure : Closure} {h : Heap} {g : FrameId} :
    loop.Iterates setting depth m.heap.size 0 (loop.entered setting f m) k m' →
    Point.RunsInside setting m.heap.size
      ⟨.execute fuel depth m.heap.size loop.body, loop.stepped setting m.heap.size k m'⟩ q →
    q.Makes closure → q.machine.heap.GrowsTo h → h.Within g closure.frame → ¬h.Hides g m.heap.size loop.key →
    h.Resolves g loop.key m.heap.size ∧ h.get? g loop.key = h.valueIn? m.heap.size loop.key ∧
      ∀ value, h.assign? g loop.key value = some (h.rebind m.heap.size loop.key value)
  /-- Whatever runs, heaps grow. -/
  grows (task : Task) (m' : Machine) : Run.Grows (task.answer setting) m' ∧
    ∀ q, Point.Starts setting ⟨task, m'⟩ q → m'.heap.GrowsTo q.machine.heap

end Runs

end CountedLoop

theorem Completion.leaves_or_value (result : EStateM.Result Stop Machine Completion) :
    Leaves result ∨ ∃ v m, result = .ok (.value v) m := by
  cases result with
  | ok c m =>
    cases c with
    | value v => exact Or.inr ⟨v, m, rfl⟩
    | returned v => exact Or.inl trivial
  | error stop m => exact Or.inl trivial

namespace Run

/-- A statement that is followed by another run, with as much fuel, ends as that one does or leaves itself. -/
theorem settles_sequence {run first : Nat → EStateM.Result Stop Machine Completion}
    {next : Machine → Nat → EStateM.Result Stop Machine Completion}
    {result : EStateM.Result Stop Machine Completion} (empty : ∃ m, run 0 = .error .exhausted m)
    (completes : ∀ fuel v m, first fuel = .ok (.value v) m → run (fuel + 1) = next m fuel)
    (leaves : ∀ fuel, Completion.Leaves (first fuel) → run (fuel + 1) = first fuel)
    (steady : IsSteady first) (steadyNext : ∀ m, IsSteady (next m)) :
    Settles run result ↔ (∃ v m, Settles first (.ok (.value v) m) ∧ Settles (next m) result) ∨
      Settles first result ∧ Completion.Leaves result := by
  constructor
  · rintro ⟨⟨fuel, ran⟩, ended⟩
    cases fuel with
    | zero =>
      obtain ⟨m, exhausted⟩ := empty
      exact absurd (ran.symm.trans exhausted) (ended m)
    | succ fuel =>
      rcases Completion.leaves_or_value (first fuel) with left | ⟨v, m, completed⟩
      · rw [leaves fuel left] at ran
        exact Or.inr ⟨⟨⟨fuel, ran⟩, ended⟩, ran ▸ left⟩
      · rw [completes fuel v m completed] at ran
        exact Or.inl ⟨v, m, ⟨⟨fuel, completed⟩, nofun⟩, ⟨fuel, ran⟩, ended⟩
  · rintro (⟨v, m, started, settles⟩ | ⟨⟨⟨fuel, rfl⟩, ended⟩, left⟩)
    · obtain ⟨fuel, completed⟩ := started.eventually steady
      obtain ⟨fuel', rest⟩ := settles.eventually (steadyNext m)
      refine ⟨⟨max fuel fuel' + 1, ?_⟩, settles.2⟩
      rw [completes _ v m (completed _ (Nat.le_max_left ..)), rest _ (Nat.le_max_right ..)]
    · exact ⟨⟨fuel + 1, leaves fuel left⟩, ended⟩

theorem trace_eq (setting : Setting) (event : Event) (m : Machine) :
    trace setting event m = .ok () (m.traced setting event) := by
  unfold trace Machine.traced
  split <;> rfl

/-- A name is assigned to in the frame itself that binds it. -/
theorem assign_own {name : Json} {key : Key} (keyed : Key.ofJson? name = some key) {f : FrameId} {m : Machine}
    (binds : m.heap.binds f key) (value : Value) (missing : String → Cause) (loc : Option Loc) :
    assign f name value missing loc m = .ok () { m with heap := m.heap.rebind f key value } := by
  rw [assign_eq keyed, Heap.holder?_own binds]
  rfl

end Run

namespace CountedLoop

variable {loop : CountedLoop} {setting : Setting} {depth k j n : Nat} {f frame : FrameId} {m m' : Machine}

theorem Iterates.le (iterates : loop.Iterates setting depth frame k m j m') : k ≤ j := by
  induction iterates with
  | none => exact le_rfl
  | next _ _ ih => omega

theorem Iterates.eq_of_le (iterates : loop.Iterates setting depth frame k m j m') (none : j ≤ k) : j = k ∧ m' = m := by
  cases iterates with
  | none => exact ⟨rfl, rfl⟩
  | next _ rest => exact absurd rest.le (by omega)

theorem stepped_heap : (loop.stepped setting frame k m).heap = m.heap.rebind frame loop.key (.int (loop.low + k)) := by
  unfold stepped Machine.traced
  split <;> rfl

theorem stepped_binds (setting : Setting) (k : Nat) (binds : m.heap.binds frame loop.key) :
    (loop.stepped setting frame k m).heap.binds frame loop.key := by
  rw [stepped_heap]
  exact Heap.binds_rebind.trans binds

/-- The placeholder stays where it is declared, whatever the body does. -/
theorem binds_of_settles (binds : m.heap.binds frame loop.key) {c : Completion}
    (ran : Run.Settles (loop.execution setting depth frame k m) (.ok c m')) : m'.heap.binds frame loop.key := by
  obtain ⟨⟨fuel, ran⟩, -⟩ := ran
  exact ((Run.execute_grows loop.body).ok ran).binds (stepped_binds setting k binds)

/-- The loop from one execution on, by fuel. -/
def remaining (loop : CountedLoop) (setting : Setting) (depth : Nat) (frame : FrameId) (k n : Nat) (m : Machine)
    (fuel : Nat) : EStateM.Result Stop Machine Completion :=
  Run.executeFor setting fuel depth frame loop.name loop.body loop.loc (loop.low + k) n m

theorem remaining_succ (binds : m.heap.binds frame loop.key) (fuel : Nat) :
    loop.remaining setting depth frame k (n + 1) m (fuel + 1) =
      (Run.execute setting fuel depth frame loop.body >>= fun c => match c with
        | .returned v => pure (.returned v)
        | .value _ => fun m' => loop.remaining setting depth frame (k + 1) n m' fuel)
      (loop.stepped setting frame k m) := by
  have assigned := Run.assign_own loop.keyed binds (.int (loop.low + k)) .lostPlaceholder loop.loc
  have shifted : loop.low + k + 1 = loop.low + ((k + 1 : Nat) : Int) := by push_cast; ring
  unfold remaining
  rw [← shifted]
  change (Run.assign frame loop.name (.int (loop.low + k)) .lostPlaceholder loop.loc >>= _) m = _
  rw [Run.bind_ok assigned]
  rw [Run.bind_ok (Run.trace_eq _ _ _)]
  rfl

theorem remaining_isSteady : Run.IsSteady (loop.remaining setting depth frame k n m) :=
  fun _ _ le => (Run.continued setting le).executeFor depth frame loop.name loop.body loop.loc (loop.low + k) n m

theorem settles_remaining_zero {result : EStateM.Result Stop Machine Completion} :
    Run.Settles (loop.remaining setting depth frame k 0 m) result ↔ result = .ok (.value .null) m := by
  constructor
  · rintro ⟨⟨fuel, ran⟩, ended⟩
    cases fuel with
    | zero => exact absurd ran.symm (ended m)
    | succ fuel => exact ran.symm
  · rintro rfl
    exact ⟨⟨1, rfl⟩, nofun⟩

theorem settles_remaining_succ (binds : m.heap.binds frame loop.key) {result : EStateM.Result Stop Machine Completion} :
    Run.Settles (loop.remaining setting depth frame k (n + 1) m) result ↔
      (∃ v m', Run.Settles (loop.execution setting depth frame k m) (.ok (.value v) m') ∧
        Run.Settles (loop.remaining setting depth frame (k + 1) n m') result) ∨
      Run.Settles (loop.execution setting depth frame k m) result ∧ Completion.Leaves result := by
  refine Run.settles_sequence ⟨m, rfl⟩ (fun fuel v m' completed => ?_) (fun fuel left => ?_)
    (Run.execute_isSteady _ _ _ _ _) (fun _ => remaining_isSteady)
  · rw [remaining_succ binds, Run.bind_ok completed]
  · rw [remaining_succ binds]
    unfold execution at left ⊢
    cases ran : Run.execute setting fuel depth frame loop.body (loop.stepped setting frame k m) with
    | ok c m' =>
      rw [ran] at left
      rw [Run.bind_ok ran]
      cases c with
      | value v => exact left.elim
      | returned v => rfl
    | error stop m' => exact Run.bind_error ran

/-- The loop goes on, one execution after the other, until one leaves or none remains. -/
theorem settles_remaining (binds : m.heap.binds frame loop.key) {result : EStateM.Result Stop Machine Completion} :
    Run.Settles (loop.remaining setting depth frame k n m) result ↔
      (∃ m', loop.Iterates setting depth frame k m (k + n) m' ∧ result = .ok (.value .null) m') ∨
      ∃ j < k + n, ∃ m', loop.Iterates setting depth frame k m j m' ∧
        Run.Settles (loop.execution setting depth frame j m') result ∧ Completion.Leaves result := by
  induction n generalizing k m with
  | zero =>
    rw [settles_remaining_zero]
    constructor
    · rintro rfl
      exact Or.inl ⟨m, .none, rfl⟩
    · rintro (⟨m', iterates, rfl⟩ | ⟨j, before, m', iterates, -⟩)
      · rw [(iterates.eq_of_le le_rfl).2]
      · exact absurd iterates.le (by omega)
  | succ n ih =>
    rw [settles_remaining_succ binds]
    constructor
    · rintro (⟨v, m₁, ran, settles⟩ | ⟨settles, left⟩)
      · rcases (ih (binds_of_settles binds ran)).mp settles with ⟨m', rest, rfl⟩ | ⟨j, before, m', rest, last⟩
        · exact Or.inl ⟨m', (Nat.succ_add_eq_add_succ k n) ▸ .next ran rest, rfl⟩
        · exact Or.inr ⟨j, by omega, m', .next ran rest, last⟩
      · exact Or.inr ⟨k, by omega, m, .none, settles, left⟩
    · rintro (⟨m', iterates, rfl⟩ | ⟨j, before, m', iterates, settles, left⟩)
      · generalize reached : k + (n + 1) = j at iterates
        cases iterates with
        | none => omega
        | next ran rest =>
          obtain rfl : j = k + 1 + n := by omega
          exact Or.inl ⟨_, _, ran, (ih (binds_of_settles binds ran)).mpr (Or.inl ⟨m', rest, rfl⟩)⟩
      · cases iterates with
        | none => exact Or.inr ⟨settles, left⟩
        | next ran rest =>
          have later := (ih (binds_of_settles binds ran)).mpr (Or.inr ⟨j, by omega, m', rest, settles, left⟩)
          exact Or.inl ⟨_, _, ran, later⟩

/-- The range of the statement. -/
theorem rangeOf_eq (loop : CountedLoop) (m : Machine) : Run.rangeOf (.int loop.first) (match loop.last with
      | none => .null
      | some n => .int n) m = .ok ⟨loop.low, loop.high + 1⟩ m := by
  unfold low high
  cases loop.last <;> rfl

theorem count_eq (loop : CountedLoop) : (IntRange.mk loop.low (loop.high + 1)).size = loop.count := by
  have shifted : loop.high + 1 - loop.low = loop.high - loop.low + 1 := by omega
  exact congrArg Int.toNat shifted

/-- Declaring the placeholder in the frame of the loop, which is new. -/
theorem declares_placeholder (loop : CountedLoop) (setting : Setting) (fuel depth : Nat) (f : FrameId) (m : Machine) :
    Run.execute setting (fuel + 2) depth m.heap.size (.varDecl loop.name .absent loop.declaredAt)
      { m with heap := m.heap.push (some f) } = .ok (.value .null) (loop.entered setting f m) := by
  have free : (m.heap.push (some f)).binds m.heap.size loop.key = false := by
    simp [Heap.binds, Heap.frame?_push, Frame.binds]
  have declared : Run.declare m.heap.size loop.name .null loop.declaredAt { m with heap := m.heap.push (some f) } =
      .ok () { m with heap := (m.heap.push (some f)).bind m.heap.size loop.key .null } := by
    rw [Run.declare_eq loop.keyed, free]
    rfl
  change (Run.declare m.heap.size loop.name .null loop.declaredAt >>= _) _ = _
  rw [Run.bind_ok declared, Run.bind_ok (Run.trace_eq _ _ _)]
  rfl

theorem execute_node (loop : CountedLoop) (setting : Setting) (fuel depth : Nat) (f : FrameId) (m : Machine) :
    Run.execute setting (fuel + 3) depth f loop.node m =
      loop.remaining setting depth m.heap.size 0 loop.count (loop.entered setting f m) (fuel + 2) := by
  unfold remaining
  rw [Nat.cast_zero, Int.add_zero, ← count_eq]
  have ranged := rangeOf_eq loop (loop.entered setting f m)
  change (Run.execute setting (fuel + 2) depth m.heap.size (.varDecl loop.name .absent loop.declaredAt) >>= _)
    { m with heap := m.heap.push (some f) } = _
  rw [Run.bind_ok (declares_placeholder loop setting fuel depth f m)]
  change (Run.rangeOf _ _ >>= _) _ = _
  rw [Run.bind_ok ranged]

theorem settles_node (loop : CountedLoop) (setting : Setting) (depth : Nat) (f : FrameId) (m : Machine)
    {result : EStateM.Result Stop Machine Completion} :
    Run.Settles (fun fuel => Run.execute setting fuel depth f loop.node m) result ↔
      Run.Settles (loop.remaining setting depth m.heap.size 0 loop.count (loop.entered setting f m)) result := by
  constructor
  · rintro ⟨⟨fuel, ran⟩, ended⟩
    rcases fuel with _ | _ | _ | fuel
    -- Before the loop there are three steps: it is entered, its placeholder is declared, and that has no value.
    · exact absurd ran.symm (ended _)
    · exact absurd ran.symm (ended _)
    · exact absurd ran.symm (ended _)
    · exact ⟨⟨fuel + 2, (execute_node ..).symm.trans ran⟩, ended⟩
  · intro settles
    obtain ⟨fuel, ran⟩ := settles.eventually remaining_isSteady
    exact ⟨⟨fuel + 3, (execute_node ..).trans (ran _ (by omega))⟩, settles.2⟩

theorem entered_heap : (loop.entered setting f m).heap = (m.heap.push (some f)).bind m.heap.size loop.key .null := by
  unfold entered Machine.traced
  split <;> rfl

theorem entered_binds (loop : CountedLoop) (setting : Setting) (f : FrameId) (m : Machine) :
    (loop.entered setting f m).heap.binds m.heap.size loop.key := by
  have present : m.heap.size < (m.heap.push (some f)).size := by
    rw [Heap.size_push]
    exact Nat.lt_succ_self _
  rw [entered_heap]
  exact (Heap.binds_bind present).mpr (Or.inr ⟨rfl, rfl⟩)

theorem Iterates.binds (iterates : loop.Iterates setting depth frame k m j m') (bound : m.heap.binds frame loop.key) :
    m'.heap.binds frame loop.key := by
  induction iterates with
  | none => exact bound
  | next ran _ ih => exact ih (binds_of_settles bound ran)

theorem stepped_bound (held : m.heap.binds frame loop.key) :
    (loop.stepped setting frame k m).heap.valueIn? frame loop.key = some (.int (loop.low + k)) ∧
      (loop.stepped setting frame k m).heap.get? frame loop.key = some (.int (loop.low + k)) := by
  have value : (loop.stepped setting frame k m).heap.valueIn? frame loop.key = some (.int (loop.low + k)) := by
    obtain ⟨old, bound⟩ := Option.isSome_iff_exists.mp ((Heap.binds_eq_isSome ..).symm.trans held)
    rw [stepped_heap, Heap.valueIn?_rebind, bound, Option.map_some, if_pos ⟨rfl, rfl⟩]
  exact ⟨value, by rw [Heap.get?_eq, Heap.holder?_own (stepped_binds setting k held), Option.bind_some, value]⟩

/-- Every loop whose placeholder is declared without a value counts, whatever its body is, on every machine. -/
theorem counts (loop : CountedLoop) (setting : Setting) (depth : Nat) (f : FrameId) (m : Machine) :
    loop.Counts setting depth f m where
  ends result := by
    rw [settles_node, settles_remaining (entered_binds loop setting f m), Nat.zero_add]
  bound iterates := stepped_bound (iterates.binds (entered_binds loop setting f m))
  assigns value iterates := by
    have binds := iterates.binds (entered_binds loop setting f m)
    exact Run.assign_own loop.keyed binds value .lostPlaceholder loop.loc
  shared {k} _ _ _ _ _ _ iterates inside makes later within seen := by
    have binds := stepped_binds setting k (iterates.binds (entered_binds loop setting f m))
    have own := Heap.within_self (Heap.binds_lt_size binds)
    have captured := inside.captured (fun _ runs => Option.some.inj runs ▸ own) makes
    exact (within.trans (captured.grow later)).shares seen ((inside.grows.trans later).binds binds)
  grows task m' := ⟨Run.answer_grows setting task m', fun _ start => start.grows⟩

/-- The loop `for i in 1..3`, which prints its placeholder. -/
def toThree : CountedLoop where
  name := .str "i"
  key := .text "i"
  keyed := rfl
  first := 1
  last := some 3
  body := .printStmt (.identifier (.str "i") none) none
  declaredAt := none
  loc := none

/-- The loop from one to three ends after three executions, each of which prints its number. -/
theorem counts_toThree :
    ∃ m, Run.Settles (fun fuel => Run.execute {} fuel 0 globalFrame toThree.node (Machine.initial []))
        (.ok (.value .null) m) ∧ m.outputs = [.printed "1", .printed "2", .printed "3"] := by
  have counted := counts toThree {} 0 globalFrame (Machine.initial [])
  have prints {k : Nat} {m : Machine}
      (iterates : toThree.Iterates {} 0 1 0 (toThree.entered {} globalFrame (Machine.initial [])) k m) :
      Run.Settles (toThree.execution {} 0 1 k m) (.ok (.value .null)
        { toThree.stepped {} 1 k m with
          output := .printed (Value.int (1 + k)).text :: (toThree.stepped {} 1 k m).output }) := by
    have evaluated := @Run.evaluate_identifier _ {} 0 0 1 (.str "i") _ _ none rfl rfl (counted.bound iterates).2
    exact ⟨⟨2, Run.bind_ok evaluated⟩, nofun⟩
  have one := Iterates.next (prints .none) .none
  have two := Iterates.next (prints .none) (.next (prints one) .none)
  have three := Iterates.next (prints .none) (.next (prints one) (.next (prints two) .none))
  exact ⟨_, (counted.ends _).mpr (.inl ⟨_, three, rfl⟩), rfl⟩

end CountedLoop

end PhyLang
