import PhyLang.Proofs.Interpreter.Agreement

namespace PhyLang

/-- Whether a line of output is printed by the program. -/
def Output.isPrinted (line : Output) : Bool := !line.isTraced

/-- Whether a line of output is the event of a condition of an `if` statement or of a step of a `for` loop. -/
def Output.isOfControl : Output → Bool
  | .traced (.branched _) | .traced (.stepped _ _) => true
  | _ => false

namespace Run

/-- The ends of programs that run one after the other, each on the machine that the one before it left. -/
def session (setting : Setting) (fuel : Nat) : Machine → List Program → List (EStateM.Result Stop Machine Value)
  | _, [] => []
  | m, program :: rest =>
    let ended := interpret setting fuel program m
    ended :: session setting fuel (left ended) rest

/-- The events that were traced until a run ended, in order. -/
def traceOf (ended : EStateM.Result Stop Machine Value) : List Output := (left ended).outputs.filter Output.isTraced

theorem traceOf_seen (shown : Output → Bool) (ended : EStateM.Result Stop Machine Value) :
    traceOf (seen (List.filter shown) ended) = (traceOf ended).filter shown := by
  unfold traceOf Machine.outputs
  rw [left_seen]
  simp only [Machine.seen, List.filter_reverse, List.filter_filter, Bool.and_comm]

/-- Two settings with one limit of calls refuse the same calls. -/
theorem interpret_seen {view : List Output → List Output} {fuller bare : Setting}
    (shows : Setting.Shows view fuller bare) (limit : bare.callLimit = fuller.callLimit) (fuel : Nat)
    (program : Program) (m : Machine) :
    interpret bare fuel program (m.seen view) = seen view (interpret fuller fuel program m) :=
  interpretFrom_agrees shows (fun _ => fun overflows => limit.trans_le overflows.full) .null

theorem session_seen {view : List Output → List Output} {fuller bare : Setting}
    (shows : Setting.Shows view fuller bare) (limit : bare.callLimit = fuller.callLimit) (fuel : Nat)
    (programs : List Program) (m : Machine) :
    session bare fuel (m.seen view) programs = (session fuller fuel m programs).map (seen view) := by
  induction programs generalizing m with
  | nil => rfl
  | cons program rest ih =>
    simp only [session, List.map_cons]
    rw [interpret_seen shows limit, left_seen, ih]

end Run

namespace Setting

variable {callLimit : Nat}

/-- Hiding lines of the output gives what another setting puts out if that one traces just the events that are not
hidden. -/
theorem shows_filter {shown : Output → Bool} {level level' : Int} (printed : ∀ text, shown (.printed text) = true)
    (traced : ∀ event : Event, event.level ≤ level' ↔ event.level ≤ level ∧ shown (.traced event) = true) :
    Shows (List.filter shown) ⟨level, callLimit⟩ ⟨level', callLimit⟩ where
  printed text _ := List.filter_cons_of_pos (printed text)
  shown event _ recorded := ⟨((traced event).mp recorded).1, List.filter_cons_of_pos ((traced event).mp recorded).2⟩
  hidden event _ recorded silent :=
    List.filter_cons_of_neg fun visible => silent ((traced event).mpr ⟨recorded, visible⟩)
  callLimit_le := le_rfl

/-- Without its events, the trace of any level is that of the least one. -/
theorem shows_printed (level : Int) : Shows (List.filter Output.isPrinted) ⟨level, callLimit⟩ ⟨0, callLimit⟩ := by
  refine shows_filter (fun _ => rfl) fun event => ?_
  cases event <;> simp [Event.level, Output.isPrinted, Output.isTraced]

/-- Below the second level there is no event to hide. -/
theorem shows_none {level : Int} (low : level < 2) :
    Shows (List.filter Output.isPrinted) ⟨level, callLimit⟩ ⟨level, callLimit⟩ := by
  refine shows_filter (fun _ => rfl) fun event => ?_
  cases event <;> simp [Event.level, Output.isPrinted, Output.isTraced] <;> omega

/-- From the third level on every event is traced. -/
theorem shows_all {level level' : Int} (high : 3 ≤ level) (high' : 3 ≤ level') :
    Shows id ⟨level, callLimit⟩ ⟨level', callLimit⟩ := by
  have traced (event : Event) : event.level ≤ 3 := by cases event <;> simp [Event.level]
  exact ⟨fun _ _ => rfl, fun event _ _ => ⟨(traced event).trans high, rfl⟩,
    fun event _ _ silent => absurd ((traced event).trans high') silent, le_rfl⟩

/-- The second level traces what the third one does, besides the events of control. -/
theorem shows_uncontrolled : Shows (List.filter fun line => !line.isOfControl) ⟨3, callLimit⟩ ⟨2, callLimit⟩ := by
  refine shows_filter (fun _ => rfl) fun event => ?_
  cases event <;> simp [Event.level, Output.isOfControl]

end Setting

namespace Run

end Run

end PhyLang
