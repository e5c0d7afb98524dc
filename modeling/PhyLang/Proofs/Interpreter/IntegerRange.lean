import PhyLang.Proofs.Grammar.Parse
import PhyLang.Proofs.Interpreter.Safety

namespace PhyLang

/-- A value is no integer of more than 64 bits. -/
def Value.Fits : Value → Prop
  | .int n => InRange n
  | _ => True

theorem Value.IsSound.fits {parts : Parts} {v : Value} (sound : v.IsSound parts) : v.Fits := by
  cases v <;> first | exact sound | trivial

namespace Point

/-- No integer of more than 64 bits is stored, handed over or given at a point of a run, and none is
stored when its task has ended. -/
structure KeepsRange (setting : Setting) (p : Point) : Prop where
  stored : p.machine.heap.Holds Value.Fits
  handed : ∀ v ∈ p.task.handed, v.Fits
  ended : match p.task.run setting p.machine with
    | .ok values m => (∀ v ∈ values, v.Fits) ∧ m.heap.Holds Value.Fits
    | .error _ m => m.heap.Holds Value.Fits

variable {parts : Parts} {setting : Setting}

theorem IsSound.keepsRange {p : Point} (sound : p.IsSound parts) (ends : p.EndsWell parts setting) :
    p.KeepsRange setting := by
  refine ⟨sound.machine.mono fun _ => Value.IsSound.fits, ?_, ?_⟩
  · intro v member
    obtain ⟨task, m⟩ := p
    cases task with
    | call _ _ callee args =>
      rcases List.mem_cons.mp member with same | inside
      · rw [same]
        exact sound.task.1.fits
      · exact (sound.task.2 v inside).fits
    | _ => cases member
  · unfold EndsWell at ends
    split
    next values m ran =>
      have ok := ends.ok ran
      exact ⟨fun v member => (ok.1 v member).fits, ok.2.mono fun _ => Value.IsSound.fits⟩
    next stop m ran =>
      rw [ran] at ends
      cases stop with
      | error e => exact ends.2.mono fun _ => Value.IsSound.fits
      | fault f => exact ends.elim
      | exhausted => exact Heap.Holds.mono ends fun _ => Value.IsSound.fits

end Point

/-- An assignment puts the value into the frame that binds the name. -/
theorem Run.assign_ok {f : FrameId} {name : Json} {value : Value} {missing : String → Cause} {loc : Option Loc}
    {m m' : Machine} (assigned : assign f name value missing loc m = .ok () m') :
    ∃ key holder, m.heap.holder? f key = some holder ∧ m'.heap = m.heap.rebind holder key value := by
  cases keyed : Key.ofJson? name with
  | none =>
    unfold assign keyOf at assigned
    rw [keyed] at assigned
    cases assigned
  | some key =>
    rw [assign_eq keyed] at assigned
    cases found : m.heap.holder? f key with
    | none =>
      rw [found] at assigned
      cases assigned
    | some holder =>
      rw [found] at assigned
      cases assigned
      exact ⟨key, holder, found, rfl⟩

theorem Run.trace_ok (setting : Setting) (event : Event) (m : Machine) :
    ∃ m', trace setting event m = .ok () m' ∧ m'.heap = m.heap := by
  unfold trace
  split
  · exact ⟨_, rfl, rfl⟩
  · exact ⟨_, rfl, rfl⟩

namespace Program

variable {setting : Setting} {fuel : Nat} {program : Program} {m : Machine}

/-- What is introduced at a point in range is in range. -/
theorem inRange_of_keepsRange (kept : ∀ p, program.Reaches setting fuel m p → p.KeepsRange setting) {p : Point}
    (reached : program.Reaches setting fuel m p) {n : Int} (introduced : p.Introduces n) : Value.InRange n := by
  cases introduced with
  | literal => exact (kept _ reached).ended.1 (.int n) (List.mem_singleton.mpr rfl)
  | counter assigned =>
    -- The body of the loop starts with the counter in the frame of the loop.
    obtain ⟨m'', traced, same⟩ := Run.trace_ok setting _ _
    have inside := (kept _ (.inner reached (.forBody assigned traced))).stored
    obtain ⟨key, holder, found, rebound⟩ := Run.assign_ok assigned
    rw [same, rebound] at inside
    exact Heap.Holds.of_rebind found inside

/-- The points of a well-formed run that introduces integers of 64 bits only are in range. -/
theorem keepsRange_of_inRange {parts : Parts} (interval : parts.IsInterval)
    (shape : ∀ node ∈ program, node.IsStatement parts) (machine : m.IsSound parts)
    (fine : program.IntroducesInRange parts setting fuel m) {p : Point} (reached : program.Reaches setting fuel m p) :
    p.KeepsRange setting := by
  have sound := reached.sound interval shape machine fine
  exact sound.keepsRange (Point.endsWell interval sound (fine.point reached))

/-- Every point of the runs of a parsed program is in range if and only if every literal that is evaluated
and everything that a loop assigns to its placeholder is, for which it is enough that all integers of the
program are. -/
theorem keepsRange_iff {source : String} (parsed : Program.parse source = .ok program) (setting : Setting)
    (fuel : Nat) (clock : Clock) :
    let start := Machine.initial [] clock
    ((∀ p, program.Reaches setting fuel start p → p.KeepsRange setting) ↔
      ∀ p, program.Reaches setting fuel start p → ∀ n, p.Introduces n → Value.InRange n) ∧
    ((∀ node ∈ program, node.IsStatement Parts.fitting) →
      ∀ p, program.Reaches setting fuel start p → p.KeepsRange setting) := by
  intro start
  have interval : Parts.any.IsInterval := ⟨trivial, fun _ _ _ _ => trivial⟩
  refine ⟨⟨fun kept p reached n introduced => inRange_of_keepsRange kept reached introduced, ?_⟩, ?_⟩
  · -- Nothing has to be known of the integers in the program, since all that are introduced are in range.
    intro fine p reached
    exact keepsRange_of_inRange interval (parse_isStatement parsed) Machine.initial_sound
      (fun q there n introduced _ => fine q there n introduced) reached
  · intro shape p reached
    have fine : program.IntroducesInRange Parts.fitting setting fuel start := fun _ _ _ _ range => range
    exact keepsRange_of_inRange Parts.fitting_isInterval shape Machine.initial_sound fine reached

/-- Integers that are written in 64 bits are integers of 64 bits in the program. -/
theorem parse_isFitting {source : String} (parsed : Program.parse source = .ok program)
    (fits : ∀ token ∈ (scanned source).tokens, token.kind = .int ∨ token.kind = .bound →
      Value.InRange (Token.intValue token.text)) : ∀ node ∈ program, node.IsStatement Parts.fitting := by
  obtain ⟨-, -, derived⟩ := parse_ok parsed
  exact derived.isStatement ⟨Token.scan_spelled, fun _ _ _ => trivial, fits, fun _ _ _ _ => trivial⟩

/-- A loop that ends at the greatest integer of 64 bits stays in range. -/
theorem keepsRange_iff_greatest :
    ∃ program, Program.parse "for i in 9223372036854775806..9223372036854775807 \x7bprint i\x7d" = .ok program ∧
      ∀ setting fuel clock p, program.Reaches setting fuel (Machine.initial [] clock) p → p.KeepsRange setting := by
  have accepted : (Program.parse "for i in 9223372036854775806..9223372036854775807 \x7bprint i\x7d").isOk = true := by
    decide +kernel
  have fits : ∀ token ∈ (scanned "for i in 9223372036854775806..9223372036854775807 \x7bprint i\x7d").tokens,
      token.kind = .int ∨ token.kind = .bound → Value.InRange (Token.intValue token.text) := by decide +kernel
  obtain ⟨program, parsed⟩ := exists_of_isOk accepted
  refine ⟨program, parsed, fun setting fuel clock => ?_⟩
  exact (keepsRange_iff parsed setting fuel clock).2 (parse_isFitting parsed fits)

theorem parse_literal : (match Program.parse "print 99999999999999999999" with
    | .ok [.printStmt (.intLiteral n _) _] => n == 99999999999999999999
    | _ => false) = true := by
  decide +kernel

/-- A literal of more than 64 bits is evaluated as it stands. -/
theorem keepsRange_fails_literal :
    ∃ program, Program.parse "print 99999999999999999999" = .ok program ∧
      ∃ p, program.Reaches {} 2 (Machine.initial []) p ∧ ¬p.KeepsRange {} := by
  have accepted := parse_literal
  split at accepted
  next n _ _ parsed =>
    refine ⟨_, parsed, _, .inner .statement .printStmt, fun kept => ?_⟩
    have range : Value.InRange n := kept.ended.1 (.int n) (List.mem_singleton.mpr rfl)
    rw [eq_of_beq accepted] at range
    exact absurd range (by decide)
  next => cases accepted

end Program

end PhyLang
