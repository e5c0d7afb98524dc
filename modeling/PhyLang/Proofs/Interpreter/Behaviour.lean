import PhyLang.Proofs.Interpreter.Simulation

namespace PhyLang.Run

/-- The course of a run: its ends with more and more steps. -/
abbrev Course := Nat → EStateM.Result Stop Machine Value

/-- A run puts out some lines first, with enough steps. -/
def PutsOut (course : Course) (lines : List Output) : Prop := ∃ fuel, lines <+: (left (course fuel)).outputs

/-- A run has an end that no further steps change. -/
def EndsIn (course : Course) (result : EStateM.Result Stop Machine Value) : Prop :=
  ∃ enough, ∀ fuel ≥ enough, course fuel = result

/-- Two ends are the same but for locations and parentheses: values of which functions have the same name and
parameters, errors with the same kinds from the outermost to the innermost, the same innermost message and the same
payloads, or the same refusal of the host. What was put out is the same, and so are the frames. -/
inductive SameEnd : EStateM.Result Stop Machine Value → EStateM.Result Stop Machine Value → Prop
  | value {v v' : Value} {m m' : Machine} (corresponds : v.bare = v'.bare) (outputs : m.outputs = m'.outputs)
      (frames : m.heap.map Value.bare = m'.heap.map Value.bare) : SameEnd (.ok v m) (.ok v' m')
  | error {e e' : RuntimeError} {m m' : Machine}
      (kinds : e.chain.map RuntimeError.kind = e'.chain.map RuntimeError.kind)
      (message : e.innermost.message = e'.innermost.message) (payloads : e.bare = e'.bare)
      (outputs : m.outputs = m'.outputs) (frames : m.heap.map Value.bare = m'.heap.map Value.bare) :
      SameEnd (.error (.error e) m) (.error (.error e') m')
  | fault {f : Fault} {m m' : Machine} (outputs : m.outputs = m'.outputs)
      (frames : m.heap.map Value.bare = m'.heap.map Value.bare) : SameEnd (.error (.fault f) m) (.error (.fault f) m')

/-- Two runs put out the same, and neither of them ends or both end in the same way. -/
structure SameBehaviour (first second : Course) : Prop where
  outputs : ∀ lines, PutsOut first lines ↔ PutsOut second lines
  ends : (∀ fuel, ∃ m m', first fuel = .error .exhausted m ∧ second fuel = .error .exhausted m') ∨
    ∃ result result', EndsIn first result ∧ EndsIn second result' ∧ SameEnd result result'

theorem outputs_of_bare {m m' : Machine} (machines : m.bare = m'.bare) : m.outputs = m'.outputs := by
  have output : m.bare.output = m'.bare.output := congrArg Machine.output machines
  exact congrArg List.reverse output

theorem left_bared {α : Type} {β : α → α} {result result' : EStateM.Result Stop Machine α}
    (same : bared β result = bared β result') : (left result).bare = (left result').bare := by
  cases result with
  | ok a m =>
    cases result' with
    | ok => exact (EStateM.Result.ok.inj same).2
    | error => cases same
  | error stop m =>
    cases result' with
    | ok => cases same
    | error => exact (EStateM.Result.error.inj same).2

/-- Ends without locations and parentheses are the same if they are not for want of steps. -/
theorem sameEnd_of_bared {result result' : EStateM.Result Stop Machine Value}
    (same : bared Value.bare result = bared Value.bare result') (ended : ∀ m, result ≠ .error .exhausted m) :
    SameEnd result result' := by
  have outputs := outputs_of_bare (left_bared same)
  have frames : ((left result).bare.heap) = (left result').bare.heap := congrArg Machine.heap (left_bared same)
  cases result with
  | ok v m =>
    cases result' with
    | ok v' m' => exact .value (EStateM.Result.ok.inj same).1 outputs frames
    | error => cases same
  | error stop m =>
    cases result' with
    | ok => cases same
    | error stop' m' =>
      have stops := (EStateM.Result.error.inj same).1
      cases stop with
      | exhausted => exact absurd rfl (ended m)
      | fault f =>
        cases stop' with
        | fault =>
          cases stops
          exact .fault outputs frames
        | _ => cases stops
      | error e =>
        cases stop' with
        | error e' =>
          have errors : e.bare = e'.bare := Stop.error.inj stops
          refine .error ?_ ?_ errors outputs frames
          · rw [← e.kinds_bare, errors, e'.kinds_bare]
          · rw [← e.innermost_message_bare, errors, e'.innermost_message_bare]
        | _ => cases stops

/-- All that a run has put out is put out by a run that it matches. -/
theorem Matches.putsOut {first : EStateM.Result Stop Machine Value} {second : Course}
    (matched : Matches Value.bare first second) {lines : List Output} (shown : lines <+: (left first).outputs) :
    PutsOut second lines := by
  cases matched with
  | ended enough stable same =>
    refine ⟨enough, ?_⟩
    rw [stable enough le_rfl, ← outputs_of_bare (left_bared same)]
    exact shown
  | exhausted enough suffix =>
    exact ⟨enough, shown.trans (List.reverse_prefix.mpr (suffix enough le_rfl))⟩

/-- A run that matches one which has ended ends in the same way. -/
theorem Matches.endsIn {first : EStateM.Result Stop Machine Value} {second : Course}
    (matched : Matches Value.bare first second) (ended : ∀ m, first ≠ .error .exhausted m) :
    ∃ result, EndsIn second result ∧ bared Value.bare first = bared Value.bare result := by
  cases matched with
  | ended enough stable same => exact ⟨_, ⟨enough, stable⟩, same⟩
  | exhausted => exact absurd rfl (ended _)

/-- An end that is the same as one for want of steps is one itself. -/
theorem exhausted_of_bared {m : Machine} {result : EStateM.Result Stop Machine Value}
    (same : bared Value.bare result = bared Value.bare (.error .exhausted m)) : ∃ m', result = .error .exhausted m' := by
  cases result with
  | ok => cases same
  | error stop m' =>
    cases stop with
    | exhausted => exact ⟨m', rfl⟩
    | _ => cases same

/-- Runs that match each other, and themselves, behave the same. -/
theorem SameBehaviour.of_matches {first second : Course} (matched : ∀ fuel, Matches Value.bare (first fuel) second)
    (matched' : ∀ fuel, Matches Value.bare (second fuel) first) (own : ∀ fuel, Matches Value.bare (first fuel) first) :
    SameBehaviour first second := by
  refine ⟨fun lines => ⟨?_, ?_⟩, ?_⟩
  · exact fun ⟨fuel, shown⟩ => (matched fuel).putsOut shown
  · exact fun ⟨fuel, shown⟩ => (matched' fuel).putsOut shown
  · by_cases endless : ∀ fuel, ∃ m, first fuel = .error .exhausted m
    · -- If the second run had an end, the first one would have it too.
      refine .inl fun fuel => ?_
      obtain ⟨m, stopped⟩ := endless fuel
      by_contra other
      have ended (m' : Machine) : second fuel ≠ .error .exhausted m' := fun same => other ⟨m, m', stopped, same⟩
      obtain ⟨result, ⟨enough, stable⟩, same⟩ := (matched' fuel).endsIn ended
      obtain ⟨n, late⟩ := endless enough
      rw [← stable enough le_rfl, late] at same
      obtain ⟨m', exhausted⟩ := exhausted_of_bared same
      exact ended m' exhausted
    · rw [not_forall] at endless
      obtain ⟨fuel, stops⟩ := endless
      have ended (m : Machine) : first fuel ≠ .error .exhausted m := fun same => stops ⟨m, same⟩
      obtain ⟨result, ends, same⟩ := (own fuel).endsIn ended
      obtain ⟨result', ends', same'⟩ := (matched fuel).endsIn ended
      refine .inr ⟨result, result', ends, ends', sameEnd_of_bared (same.symm.trans same') fun m exhausted => ?_⟩
      rw [exhausted] at same
      obtain ⟨m', late⟩ := exhausted_of_bared same
      exact ended m' late

theorem interpretFrom_blind (setting : Setting) (fuel : Nat) (result : Value) (program : Program) :
    Blind (interpretFrom setting fuel result program) := fun older _ =>
  interpretFrom_agrees (shows_older setting older) (fun _ => fun overflows => overflows.full) result

/-- Runs of programs that are bare the same match. -/
theorem interpretFrom_matches (setting : Setting) (fuel : Nat) {program other : Program}
    (same : Node.allBare program = Node.allBare other) {result result' : Value} (results : result.bare = result'.bare)
    {m m' : Machine} (machines : m.bare = m'.bare) :
    Matches Value.bare (interpretFrom setting fuel result program m)
      fun steps => interpretFrom setting steps result' other m' := by
  induction program generalizing other result result' m m' with
  | nil =>
    cases other with
    | nil => exact .pure results machines
    | cons => cases same
  | cons node rest ih =>
    cases other with
    | nil => cases same
    | cons node' rest' =>
      obtain ⟨first, later⟩ := List.cons.inj same
      refine ((likened setting fuel).execute first machines).bind (fun steps c => ?_) fun c c' n n' ends machines => ?_
      · cases c with
        | returned v => exact fail_blind _ none
        | value v => exact interpretFrom_blind setting steps v rest'
      · cases c with
        | returned v =>
          cases c' with
          | returned v' =>
            have causes : (Cause.returned v).bare = (Cause.returned v').bare :=
              congrArg Cause.returned (Completion.returned.inj ends)
            exact .fail causes none none machines
          | value => cases ends
        | value v =>
          cases c' with
          | returned => cases ends
          | value v' => exact ih later (Completion.value.inj ends) machines

end PhyLang.Run
