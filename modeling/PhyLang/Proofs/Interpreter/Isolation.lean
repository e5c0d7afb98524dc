import PhyLang.Proofs.Interpreter.Preservation
import PhyLang.Proofs.Scope.Reach

namespace PhyLang

/-- The values that an error carries. -/
def RuntimeError.payloads : RuntimeError → List Value
  | .raised (.returned v) _ => [v]
  | .raised _ _ => []
  | .inCall _ inner _ => inner.payloads

theorem RuntimeError.payloads_raised {cause : Cause} (loc : Option Loc) (own : cause.IsOwn) :
    (RuntimeError.raised cause loc).payloads = [] := by
  cases cause with
  | returned v => exact own.elim
  | _ => rfl

/-- What a call that is confined to a region of frames keeps. -/
def Invariant.isolation (before : Heap) (region : FrameId → Prop) : Invariant Unit where
  heap := before.Isolates region
  value n v := ∀ f, v.Captures f → before.Accessible region n f
  reads := before.Accessible region
  writes := before.Accessible region
  node _ _ := True
  loc _ _ := True
  error _ e := e.payloads = []
  thrown _ e := e.payloads = []
  value_mono le holds f captures := (holds f captures).mono le
  reads_mono le accessible := accessible.mono le
  writes_mono le accessible := accessible.mono le
  reads_of_writes := id
  push isolates accessible := ⟨isolates.push accessible, .inr ⟨isolates.grown, Nat.lt_succ_self _⟩⟩
  bind isolates accessible _ holds := isolates.bind accessible _ holds
  rebind isolates accessible found holds := isolates.rebind (isolates.holder accessible found) _ holds
  get isolates accessible found := isolates.get accessible found
  plain plain f captures := absurd captures (plain.not_captures f)
  signal holds := holds
  closure _ accessible _ captures := captures ▸ accessible
  captured holds := holds _ rfl
  body _ := ⟨(), fun _ _ => trivial, trivial, fun _ => id⟩
  native _ _ := rfl
  child _ _ := trivial
  located _ _ := trivial
  raised own _ := RuntimeError.payloads_raised _ own
  inCall _ _ _ quiet := quiet

namespace Run

/-- The machine that a run leaves. -/
def left {α : Type} : EStateM.Result Stop Machine α → Machine
  | .ok _ m | .error _ m => m

/-- The values that come out of a run: its result, or what its error carries. -/
def handedOut : EStateM.Result Stop Machine Value → List Value
  | .ok v _ => [v]
  | .error (.error e) _ => e.payloads
  | .error _ _ => []

/-- A call of what is no function changes nothing. -/
theorem call_other_keeps {before : Heap} {region : FrameId → Prop} {m : Machine} {function : Value}
    (isolates : before.Isolates region m.heap) (other : calleeName? function = none) (setting : Setting)
    (fuel depth : Nat) (args : List Value) :
    (Invariant.isolation before region).Keeps (fun e => e.payloads = []) (Invariant.isolation before region).value
      m.heap.size (call setting fuel depth function args m) := by
  cases fuel with
  | zero => exact Invariant.stop_keeps (by simp) isolates
  | succ fuel =>
    cases function with
    | fn | native => cases other
    | callable => exact Invariant.refuse_keeps _ isolates
    | _ =>
      have located : (Invariant.isolation before region).loc () none := trivial
      exact Invariant.fail_keeps isolates trivial located

/-- A call leaves every frame as it was that the function and its arguments do not reach, whatever its code does
and however it ends. What comes out of it, and what is in the frames that are reached or made, captures such
frames only. So the frames of another function stay as they were, unless they are reached. -/
theorem call_isolated (setting : Setting) (fuel depth : Nat) (function : Value) (args : List Value) (m : Machine) :
    let region := m.heap.Reaches fun f => ∃ v ∈ function :: args, v.Captures f
    let result := call setting fuel depth function args m
    m.heap.Isolates region (left result).heap ∧
      (∀ v ∈ handedOut result, ∀ f, v.Captures f → m.heap.Accessible region (left result).heap.size f) ∧
      ∀ (other : Value) f, m.heap.Reaches other.Captures f → f < m.heap.size → ¬region f →
        (left result).heap.frame? f = m.heap.frame? f := by
  intro region result
  have isolates : m.heap.Isolates region m.heap := Heap.isolates_reaches m.heap _
  have known : ∀ v ∈ function :: args, ∀ f, v.Captures f → m.heap.Accessible region m.heap.size f :=
    fun v member f captures => .inl (.root ⟨v, member, captures⟩)
  have keeps : (Invariant.isolation m.heap region).Keeps (fun e => e.payloads = [])
      (Invariant.isolation m.heap region).value m.heap.size result := by
    cases named : calleeName? function with
    | none => exact call_other_keeps isolates named setting fuel depth args
    | some name =>
      exact (Invariant.preserved _ setting fuel).call isolates (known function (List.mem_cons_self ..))
        (fun arg member => known arg (List.mem_cons_of_mem _ member)) named
  cases ran : result with
  | ok v m' =>
    rw [ran] at keeps
    obtain ⟨after, -, holds⟩ := keeps
    exact ⟨after, List.forall_mem_singleton.mpr holds, fun _ f _ inside outside => after.kept f inside outside⟩
  | error stop m' =>
    rw [ran] at keeps
    obtain ⟨after, -, quiet⟩ := keeps
    refine ⟨after, ?_, fun _ f _ inside outside => after.kept f inside outside⟩
    cases stop with
    | error e =>
      have none : handedOut (.error (.error e) m') = [] := quiet e rfl
      rw [none]
      exact List.forall_mem_nil _
    | fault | exhausted => exact List.forall_mem_nil _

end Run

end PhyLang
