import Mathlib.Tactic
import Mathlib.Data.Prod.Lex
import PhyLang.Source.Position

namespace PhyLang.Source

namespace Position

/-- Places are ordered by their lines, and places of one line by their columns. -/
instance : PartialOrder Position :=
  PartialOrder.lift (fun p => toLex (p.line, p.column)) fun p q same => by
    obtain ⟨line, column⟩ := p
    obtain ⟨line', column'⟩ := q
    cases same
    rfl

theorem lt_iff {p q : Position} : p < q ↔ p.line < q.line ∨ p.line = q.line ∧ p.column < q.column :=
  Prod.Lex.toLex_lt_toLex

theorem lt_next (p : Position) (c : Char) : p < p.next c := by
  rw [lt_iff, next]
  split
  · exact .inl (Nat.lt_succ_self _)
  · exact .inr ⟨rfl, Nat.lt_succ_self _⟩

theorem le_advance (p : Position) (word : List Char) : p ≤ p.advance word := by
  induction word generalizing p with
  | nil => exact le_rfl
  | cons c word ih => exact (p.lt_next c).le.trans (ih (p.next c))

theorem lt_advance (p : Position) {word : List Char} (some : word ≠ []) : p < p.advance word := by
  obtain ⟨c, later, rfl⟩ := List.exists_cons_of_ne_nil some
  exact (p.lt_next c).trans_le (le_advance (p.next c) later)

theorem advance_counted {p : Position} (counted : p.line ≠ 0 ∧ p.column ≠ 0) (word : List Char) :
    (p.advance word).line ≠ 0 ∧ (p.advance word).column ≠ 0 := by
  induction word generalizing p with
  | nil => exact counted
  | cons c word ih =>
    refine ih ?_
    unfold next
    split
    · exact ⟨Nat.succ_ne_zero _, Nat.one_ne_zero⟩
    · exact ⟨counted.1, Nat.succ_ne_zero _⟩

theorem advance_append (p : Position) (word later : List Char) :
    p.advance (word ++ later) = (p.advance word).advance later := List.foldl_append

end Position

/-- In a text that starts at a place, a character stands at another place. -/
def StandsAt (start : Position) (text : List Char) (c : Char) (place : Position) : Prop :=
  ∃ before rest, text = before ++ c :: rest ∧ start.advance before = place

section StandsAt

variable {start place : Position} {text : List Char} {c d : Char}

theorem not_standsAt_nil : ¬StandsAt start [] c place := by
  rintro ⟨before, rest, split, -⟩
  cases before <;> cases split

theorem standsAt_cons :
    StandsAt start (d :: text) c place ↔ (d = c ∧ start = place) ∨ StandsAt (start.next d) text c place := by
  constructor
  · rintro ⟨before, rest, split, same⟩
    cases before with
    | nil =>
      cases split
      exact .inl ⟨rfl, same⟩
    | cons e before =>
      cases split
      exact .inr ⟨before, rest, rfl, same⟩
  · rintro (⟨rfl, rfl⟩ | ⟨before, rest, rfl, same⟩)
    · exact ⟨[], text, rfl, rfl⟩
    · exact ⟨d :: before, rest, rfl, same⟩

theorem StandsAt.cons (stands : StandsAt (start.next d) text c place) : StandsAt start (d :: text) c place :=
  standsAt_cons.mpr (.inr stands)

theorem StandsAt.le (stands : StandsAt start text c place) : start ≤ place := by
  obtain ⟨before, rest, -, rfl⟩ := stands
  exact start.le_advance before

theorem StandsAt.prepend {word : List Char} (stands : StandsAt (start.advance word) text c place) :
    StandsAt start (word ++ text) c place := by
  obtain ⟨before, rest, rfl, same⟩ := stands
  exact ⟨word ++ before, rest, (List.append_assoc ..).symm, by rwa [Position.advance_append]⟩

/-- A character behind the first one stands at a later place. -/
theorem standsAt_cons_of_ne (other : start ≠ place) :
    StandsAt start (d :: text) c place ↔ StandsAt (start.next d) text c place := by
  rw [standsAt_cons, or_iff_right fun first => other first.2]

/-- One character stands at a place. -/
theorem StandsAt.unique (stands : StandsAt start text c place) (also : StandsAt start text d place) : c = d := by
  induction text generalizing start with
  | nil => exact absurd stands not_standsAt_nil
  | cons e text ih =>
    rw [standsAt_cons] at stands also
    rcases stands with ⟨rfl, rfl⟩ | later
    · rcases also with ⟨rfl, -⟩ | later
      · rfl
      · exact absurd ((start.lt_next e).trans_le later.le) (lt_irrefl start)
    · rcases also with ⟨rfl, rfl⟩ | alsoLater
      · exact absurd ((start.lt_next e).trans_le later.le) (lt_irrefl start)
      · exact ih later alsoLater

end StandsAt

/-- The character in a line and a column, both counted from zero. -/
def charIn? (text : List Char) (line column : Nat) : Option Char := (text.splitOn '\n')[line]?.bind (·[column]?)

/-- The character at a place of a text. -/
def charAt? (text : List Char) (p : Position) : Option Char :=
  match p.line, p.column with
  | line + 1, column + 1 => charIn? text line column
  | _, _ => none

section Lines

variable {text : List Char} {line column : Nat} {c d : Char}

theorem charIn?_nil : charIn? [] line column = none := by
  cases line <;> rfl

theorem charIn?_lineEnd : charIn? ('\n' :: text) line column = if line = 0 then none else charIn? text (line - 1) column := by
  unfold charIn? List.splitOn
  rw [List.splitOnP_cons_eq_if_modifyHead, if_pos (by simp)]
  cases line <;> rfl

theorem charIn?_cons (inLine : d ≠ '\n') : charIn? (d :: text) line column =
    if line = 0 then (if column = 0 then some d else charIn? text 0 (column - 1)) else charIn? text line column := by
  unfold charIn? List.splitOn
  rw [List.splitOnP_cons_eq_if_modifyHead, if_neg (by simpa using inLine)]
  obtain ⟨first, later, lines⟩ := List.exists_cons_of_ne_nil (List.splitOnP_ne_nil (· == '\n') text)
  rw [lines]
  cases line with
  | zero => cases column <;> rfl
  | succ => rfl

/-- The place a number of lines further, in a column counted from zero. On the same line columns are
counted from the place itself. -/
def Position.ahead (p : Position) (line column : Nat) : Position :=
  if line = 0 then ⟨p.line, p.column + column⟩ else ⟨p.line + line, column + 1⟩

theorem Position.lt_ahead {p : Position} (further : line ≠ 0 ∨ column ≠ 0) : p < p.ahead line column := by
  rw [lt_iff, ahead]
  split
  next same => exact .inr ⟨rfl, by simp only; omega⟩
  next => exact .inl (by simp only; omega)

theorem Position.ahead_lineEnd {p : Position} (later : line ≠ 0) :
    (p.next '\n').ahead (line - 1) column = p.ahead line column := by
  unfold ahead next
  split <;> simp <;> omega

theorem Position.ahead_inLine {p : Position} (inLine : d ≠ '\n') (further : column ≠ 0) :
    (p.next d).ahead 0 (column - 1) = p.ahead 0 column := by
  have columns : p.column + 1 + (column - 1) = p.column + column := by omega
  simp only [next, if_neg inLine, ahead, if_true, columns]

theorem Position.ahead_later {p : Position} (inLine : d ≠ '\n') (later : line ≠ 0) :
    (p.next d).ahead line column = p.ahead line column := by
  rw [next, if_neg inLine, ahead, ahead, if_neg later, if_neg later]

/-- A character is found in a line and a column if it stands there, wherever the text starts. -/
theorem charIn?_eq_some_iff (p : Position) :
    charIn? text line column = some c ↔ c ≠ '\n' ∧ StandsAt p text c (p.ahead line column) := by
  induction text generalizing p line column with
  | nil => simp [charIn?_nil, not_standsAt_nil]
  | cons d text ih =>
    by_cases lineEnd : d = '\n'
    · subst lineEnd
      rw [charIn?_lineEnd]
      by_cases first : line = 0
      · -- The rest of the text starts on a later line.
        subst first
        have before : p.ahead 0 column < p.next '\n' := Position.lt_iff.mpr (.inl (Nat.lt_succ_self _))
        rw [if_pos rfl, standsAt_cons]
        refine iff_of_false (by simp) ?_
        rintro ⟨other, ⟨same, -⟩ | later⟩
        · exact other same.symm
        · exact (before.trans_le later.le).false
      · rw [if_neg first, ih (p.next '\n'), Position.ahead_lineEnd first,
          standsAt_cons_of_ne (Position.lt_ahead (.inl first)).ne]
    · rw [charIn?_cons lineEnd]
      by_cases first : line = 0
      · subst first
        by_cases start : column = 0
        · subst start
          have here : p.ahead 0 0 = p := rfl
          rw [if_pos rfl, if_pos rfl, standsAt_cons, here, Option.some.injEq]
          refine ⟨fun same => ⟨same ▸ lineEnd, .inl ⟨same, rfl⟩⟩, ?_⟩
          rintro ⟨-, ⟨same, -⟩ | later⟩
          · exact same
          · exact absurd ((p.lt_next d).trans_le later.le) (lt_irrefl p)
        · rw [if_pos rfl, if_neg start, ih (p.next d), standsAt_cons_of_ne (Position.lt_ahead (.inr start)).ne,
            Position.ahead_inLine lineEnd start]
      · rw [if_neg first, ih (p.next d), standsAt_cons_of_ne (Position.lt_ahead (.inl first)).ne,
          Position.ahead_later lineEnd first]

end Lines

/-- A character is found at a place exactly if it stands there and is no line end. -/
theorem charAt?_eq_some_iff {text : List Char} {p : Position} {c : Char} :
    charAt? text p = some c ↔ c ≠ '\n' ∧ StandsAt .first text c p := by
  obtain ⟨line, column⟩ := p
  have outside : line = 0 ∨ column = 0 → ¬StandsAt .first text c ⟨line, column⟩ := by
    rintro zero ⟨before, rest, -, same⟩
    have counted := Position.advance_counted (p := .first) ⟨Nat.one_ne_zero, Nat.one_ne_zero⟩ before
    rw [same] at counted
    exact zero.elim counted.1 counted.2
  cases line with
  | zero => simp [charAt?, outside]
  | succ line =>
    cases column with
    | zero => simp [charAt?, outside]
    | succ column =>
      have place : Position.first.ahead line column = ⟨line + 1, column + 1⟩ := by
        unfold Position.ahead Position.first
        split <;> simp <;> omega
      rw [← place, ← charIn?_eq_some_iff, place, charAt?]

end PhyLang.Source
