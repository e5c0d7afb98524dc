import PhyLang.Proofs.Token.Continued

namespace PhyLang

namespace Source

/-- A place some lines further down. -/
def Position.lowered (lines : Nat) (p : Position) : Position := ⟨p.line + lines, p.column⟩

/-- A stretch some lines further down. -/
def Span.lowered (lines : Nat) (span : Span) : Span := ⟨span.start.lowered lines, span.stop.lowered lines⟩

theorem Position.next_lowered (lines : Nat) (p : Position) (c : Char) :
    (p.lowered lines).next c = (p.next c).lowered lines := by
  unfold next lowered
  split
  · simp only [Nat.add_right_comm]
  · rfl

theorem Position.advance_lowered (lines : Nat) (p : Position) (word : List Char) :
    (p.lowered lines).advance word = (p.advance word).lowered lines := by
  induction word generalizing p with
  | nil => rfl
  | cons c word ih => exact (congrArg (advance · word) (next_lowered lines p c)).trans (ih (p.next c))

/-- Behind a line end a text starts in the first column, as many lines down as there were line ends. -/
theorem Position.advance_lineEnd (p : Position) (word : List Char) :
    p.advance (word ++ ['\n']) = ⟨p.line + word.count '\n' + 1, 1⟩ := by
  induction word generalizing p with
  | nil => rfl
  | cons c word ih =>
    have step : p.advance (c :: word ++ ['\n']) = (p.next c).advance (word ++ ['\n']) := rfl
    rw [step, ih, List.count_cons, next]
    by_cases lineEnd : c = '\n'
    · simp only [lineEnd, beq_self_eq_true, if_true, Nat.add_right_comm, Nat.add_assoc]
    · simp only [if_neg lineEnd, beq_false_of_ne lineEnd, Bool.false_eq_true, if_false, Nat.add_zero]

end Source

namespace Token

open Source (Position)

/-- A token some lines further down. -/
def lowered (lines : Nat) (token : Token) : Token := { token with span := token.span.lowered lines }

/-- A text that stands further down is scanned as the same tokens further down. -/
theorem Scans.lowered (lines : Nat) {mode : Mode} {place : Position} {input : List Char} {tokens : List Token}
    (scans : Scans mode place input tokens) :
    Scans mode (place.lowered lines) input (tokens.map (Token.lowered lines)) := by
  induction scans with
  | blanks separators => exact .blanks separators
  | @token mode place blanks text behind kind later separators found visible _ ih =>
    have started := Position.advance_lowered lines place blanks
    have stopped := Position.advance_lowered lines (place.advance blanks) text
    rw [← stopped, ← started] at ih
    have sequence := Scans.token separators found visible ih
    rw [started, stopped] at sequence
    exact sequence

end Token

end PhyLang
