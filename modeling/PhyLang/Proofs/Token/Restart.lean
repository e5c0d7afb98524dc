import PhyLang.Proofs.Grammar.Modes
import PhyLang.Proofs.Token.Scans

namespace PhyLang.Token

open Source (Position)

/-- Besides the beginning of a statement, only the end of a block or an alternative is looked for. -/
structure Mode.Restarts (mode : Mode) : Prop where
  takes : mode.TakesStatements
  others : ∀ kind, mode.accepts kind → beginsStatement kind ∨ kind = .mark .closeCurly ∨ kind = .word .else

theorem Mode.restarts_program : Restarts .program := ⟨takesStatements_program, fun _ accepted => .inl accepted⟩

theorem Mode.restarts_statement : Restarts .statement :=
  ⟨takesStatements_statement, fun _ accepted => by simpa [accepts, or_assoc] using Or.inl accepted⟩

theorem Mode.restarts_block : Restarts .block :=
  ⟨takesStatements_block, fun _ accepted => by simpa [accepts, or_assoc] using Or.inl accepted⟩

theorem Mode.restarts_afterBlock : Restarts .afterBlock :=
  ⟨takesStatements_afterBlock, fun _ accepted => by simpa [accepts, or_assoc] using accepted⟩

variable {mode : Mode} {input text : List Char} {kind : Kind}

theorem Mode.Restarts.accepts_eq (restarts : mode.Restarts) (noClosing : kind ≠ .mark .closeCurly)
    (noElse : kind ≠ .word .else) : mode.accepts kind = Mode.program.accepts kind := by
  rw [Bool.eq_iff_iff]
  constructor
  · intro accepted
    rcases restarts.others kind accepted with begins | closing | other
    · exact begins
    · exact absurd closing noClosing
    · exact absurd other noElse
  · exact fun begins => (restarts.takes kind begins).1

theorem nameKind_restart (restarts : mode.Restarts) {name : List Char} (noElse : name ≠ Word.else.text.toList) :
    nameKind mode.accepts name = nameKind Mode.program.accepts name := by
  have same : ∀ w ∈ Word.all, (w.text.toList == name && mode.accepts (.word w)) =
      (w.text.toList == name && Mode.program.accepts (.word w)) := by
    intro w _
    by_cases other : w = .else
    · subst other
      rw [beq_false_of_ne noElse.symm]
      rfl
    · have accepted : mode.accepts (.word w) = Mode.program.accepts (.word w) :=
        restarts.accepts_eq (by simp) (by simpa using other)
      rw [accepted]
  unfold nameKind
  rw [List.find?_congr same]

theorem fixedText_closeCurly : ∀ kind ∈ fixedKinds, ∀ {rest : List Char},
    fixedText kind <+: '\x7d' :: rest → kind = .mark .closeCurly := by
  have only : ∀ kind ∈ fixedKinds, (fixedText kind).head? = some '\x7d' → kind = .mark .closeCurly := by decide
  have nonempty : ∀ kind ∈ fixedKinds, fixedText kind ≠ [] := by decide
  rintro kind fixed rest ⟨behind, same⟩
  obtain ⟨c, more, text⟩ := List.exists_cons_of_ne_nil (nonempty kind fixed)
  rw [text] at same
  apply only kind fixed
  rw [text, ← (List.cons.inj same).1, List.head?_cons]

theorem fixedLexeme?_restart (restarts : mode.Restarts) (noName : nameLexeme input = [])
    (found : fixedLexeme? Mode.program.accepts input = some (kind, text)) :
    fixedLexeme? mode.accepts input = some (kind, text) := by
  have noElse : (fixedText (.word .else)).isPrefixOf input = false := by
    by_contra begins
    obtain ⟨rest, rfl⟩ := List.isPrefixOf_iff_prefix.mp (Bool.not_eq_false _ ▸ begins)
    exact List.cons_ne_nil _ _ noName
  -- At a closing bracket nothing is found at the start of a program, but something was.
  have noClosing : (fixedText (.mark .closeCurly)).isPrefixOf input = false := by
    by_contra begins
    obtain ⟨rest, rfl⟩ := List.isPrefixOf_iff_prefix.mp (Bool.not_eq_false _ ▸ begins)
    obtain ⟨other, chosen, -⟩ := Option.map_eq_some_iff.mp found
    have fits := List.find?_some chosen
    obtain ⟨accepted, begun⟩ := Bool.and_eq_true_iff.mp fits
    have closing : other = .mark .closeCurly :=
      fixedText_closeCurly other (List.mem_of_find?_eq_some chosen) (List.isPrefixOf_iff_prefix.mp begun)
    subst closing
    exact absurd accepted (by decide)
  have same : ∀ other ∈ fixedKinds, (mode.accepts other && (fixedText other).isPrefixOf input) =
      (Mode.program.accepts other && (fixedText other).isPrefixOf input) := by
    intro other _
    by_cases word : other = .word .else
    · rw [word, noElse, Bool.and_false, Bool.and_false]
    by_cases closing : other = .mark .closeCurly
    · rw [closing, noClosing, Bool.and_false, Bool.and_false]
    · rw [restarts.accepts_eq closing word]
  rw [← found, fixedLexeme?, fixedLexeme?, List.find?_congr same]

/-- What is found at the start of a program is found wherever a program might begin. -/
theorem lexeme?_restart (restarts : mode.Restarts) (found : lexeme? Mode.program.accepts input = some (kind, text))
    (noElse : text ≠ Word.else.text.toList) : lexeme? mode.accepts input = some (kind, text) := by
  have real : mode.accepts .real = Mode.program.accepts .real := restarts.accepts_eq nofun nofun
  have name : mode.accepts .name = Mode.program.accepts .name := restarts.accepts_eq nofun nofun
  have string : mode.accepts .string = Mode.program.accepts .string := restarts.accepts_eq nofun nofun
  have bound : mode.accepts .bound = Mode.program.accepts .bound := restarts.accepts_eq nofun nofun
  have int : mode.accepts .int = Mode.program.accepts .int := restarts.accepts_eq nofun nofun
  unfold lexeme? at found ⊢
  rw [real, name, string, bound, int]
  by_cases isReal : Mode.program.accepts .real ∧ realLexeme input ≠ []
  · rwa [if_pos isReal] at found ⊢
  by_cases isName : Mode.program.accepts .name ∧ nameLexeme input ≠ []
  · rw [if_neg isReal, if_pos isName] at found ⊢
    cases found
    rw [nameKind_restart restarts noElse]
  rw [if_neg isReal, if_neg isName] at found ⊢
  by_cases isString : Mode.program.accepts .string ∧ stringLexeme input ≠ []
  · rwa [if_pos isString] at found ⊢
  by_cases isBound : Mode.program.accepts .bound ∧ boundLexeme input ≠ []
  · rwa [if_neg isString, if_pos isBound] at found ⊢
  by_cases isInt : Mode.program.accepts .int ∧ intLexeme input ≠ []
  · rwa [if_neg isString, if_neg isBound, if_pos isInt] at found ⊢
  rw [if_neg isString, if_neg isBound, if_neg isInt] at found ⊢
  have unnamed : nameLexeme input = [] := by
    by_contra named
    exact isName ⟨rfl, named⟩
  exact fixedLexeme?_restart restarts unnamed found

theorem nameKind_accepts {accepts : Kind → Bool} (names : accepts .name) (name : List Char) :
    accepts (nameKind accepts name) := by
  unfold nameKind
  split
  next w found =>
    have fits := List.find?_some found
    exact (Bool.and_eq_true_iff.mp fits).2
  next => exact names

/-- What is found is looked for. -/
theorem lexeme?_accepts {accepts : Kind → Bool} (found : lexeme? accepts input = some (kind, text)) : accepts kind := by
  unfold lexeme? at found
  split at found
  next real =>
    cases found
    exact real.1
  split at found
  next name =>
    cases found
    exact nameKind_accepts name.1 _
  split at found
  next string =>
    cases found
    exact string.1
  split at found
  next bound =>
    cases found
    exact bound.1
  split at found
  next int =>
    cases found
    exact int.1
  obtain ⟨fixed, chosen, same⟩ := Option.map_eq_some_iff.mp found
  cases same
  have fits := List.find?_some chosen
  exact (Bool.and_eq_true_iff.mp fits).1

/-- A program is scanned alike wherever it might begin. -/
theorem Scans.restart {place : Position} {tokens : List Token} (restarts : mode.Restarts)
    (noElse : ∀ token ∈ tokens.head?, token.text ≠ Word.else.text.toList) (scans : Scans .program place input tokens) :
    Scans mode place input tokens := by
  cases scans with
  | blanks separators => exact .blanks separators
  | token separators found visible rest =>
    have next := (restarts.takes _ (lexeme?_accepts found)).2
    exact .token separators (lexeme?_restart restarts found (noElse _ rfl)) visible (next ▸ rest)

end PhyLang.Token
