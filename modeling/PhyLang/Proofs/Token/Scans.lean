import PhyLang.Proofs.Token.Words

namespace PhyLang.Token

open Source (Position)

/-- A text that starts at a place is scanned to its end, in a mode, as a sequence of tokens. -/
inductive Scans : Mode → Position → List Char → List Token → Prop
  | blanks {mode : Mode} {place : Position} {blanks : List Char} (separators : ∀ c ∈ blanks, Text.isSeparator c) :
      Scans mode place blanks []
  | token {mode : Mode} {place : Position} {blanks text behind : List Char} {kind : Kind} {later : List Token}
      (separators : ∀ c ∈ blanks, Text.isSeparator c)
      (found : lexeme? mode.accepts (text ++ behind) = some (kind, text))
      (visible : ∃ c more, text = c :: more ∧ Text.isSeparator c = false)
      (rest : Scans (mode.next kind) ((place.advance blanks).advance text) behind later) :
      Scans mode place (blanks ++ (text ++ behind))
        (⟨kind, text, ⟨place.advance blanks, (place.advance blanks).advance text⟩⟩ :: later)

theorem Scans.first {mode : Mode} {place : Position} {text behind : List Char} {kind : Kind} {later : List Token}
    (found : lexeme? mode.accepts (text ++ behind) = some (kind, text))
    (visible : ∃ c more, text = c :: more ∧ Text.isSeparator c = false)
    (rest : Scans (mode.next kind) (place.advance text) behind later) :
    Scans mode place (text ++ behind) (⟨kind, text, ⟨place, place.advance text⟩⟩ :: later) :=
  .token (List.forall_mem_nil _) found visible rest

/-- A text may be one token. -/
theorem Scans.single {mode : Mode} {text : List Char} {kind : Kind} (place : Position)
    (found : lexeme? mode.accepts (text ++ []) = some (kind, text))
    (visible : ∃ c more, text = c :: more ∧ Text.isSeparator c = false) :
    Scans mode place text [⟨kind, text, ⟨place, place.advance text⟩⟩] := by
  have ended : Scans (mode.next kind) (place.advance text) [] [] := .blanks (List.forall_mem_nil _)
  have scans := Scans.first found visible ended
  rwa [List.append_nil] at scans

/-- Nothing is found at the end of a text. -/
theorem Mode.lexeme?_nil (mode : Mode) : lexeme? mode.accepts [] = none := by
  cases mode <;> decide

variable {mode : Mode} {place : Position} {input : List Char} {tokens : List Token}

theorem scans_of_finished (finished : (scanFrom mode place input).ending = .finished) :
    Scans mode place input (scanFrom mode place input).tokens := by
  fun_induction scanFrom mode place input with
  | case1 => exact .blanks fun c member => blanks_of_finished finished member
  | case2 mode place input blanks rest start kind text found progress stop later ih =>
    obtain ⟨behind, split⟩ := lexeme?_isPrefix found
    have dropped : rest.drop text.length = behind := by rw [← split, List.drop_left]
    have whole : blanks ++ (text ++ behind) = input := by
      rw [split]
      exact List.prefix_iff_eq_append.mp (List.takeWhile_prefix _)
    obtain ⟨c, more, rfl⟩ := List.exists_cons_of_ne_nil (List.length_pos_iff.mp progress.1)
    have visible : Text.isSeparator c = false := drop_blanks split.symm
    have sequence : Scans mode place (blanks ++ (c :: more ++ behind))
        (⟨kind, c :: more, ⟨start, stop⟩⟩ :: later.tokens) := by
      refine .token (fun c => isSeparator_of_takeWhile) (split ▸ found) ⟨c, more, rfl, visible⟩ ?_
      rw [← dropped]
      exact ih finished
    rwa [whole] at sequence
  | case3 mode place input blanks rest start kind text found =>
    rw [finished_of_endingAt finished, Mode.lexeme?_nil] at found
    cases found

theorem scanFrom_blanks {blanks : List Char} (separators : ∀ c ∈ blanks, Text.isSeparator c) (mode : Mode)
    (place : Position) (input : List Char) :
    scanFrom mode place (blanks ++ input) = scanFrom mode (place.advance blanks) input := by
  induction blanks generalizing place with
  | nil => rfl
  | cons c blanks ih =>
    obtain ⟨first, later⟩ := List.forall_mem_cons.mp separators
    rw [List.cons_append, scanFrom_separator first, ih later]
    rfl

theorem Scans.scanFrom_eq (scans : Scans mode place input tokens) : scanFrom mode place input = ⟨tokens, .finished⟩ := by
  induction scans with
  | @blanks mode place blanks separators =>
    have ended := scanFrom_blanks separators mode place []
    rwa [List.append_nil, scanFrom_nil] at ended
  | token separators found visible _ ih => rw [scanFrom_blanks separators, scanFrom_found _ found visible, ih]

/-- A text that is scanned to its end is the tokens that scanning gives. -/
theorem scans_iff : Scans mode place input tokens ↔ scanFrom mode place input = ⟨tokens, .finished⟩ := by
  constructor
  · exact Scans.scanFrom_eq
  · intro same
    have finished : (scanFrom mode place input).ending = .finished := by rw [same]
    have scans := scans_of_finished finished
    rwa [same] at scans

/-- Blanks before a text change nothing but places. -/
theorem Scans.prepend {blanks : List Char} (separators : ∀ c ∈ blanks, Text.isSeparator c)
    (scans : Scans mode (place.advance blanks) input tokens) : Scans mode place (blanks ++ input) tokens := by
  rw [scans_iff, scanFrom_blanks separators]
  exact scans.scanFrom_eq

end PhyLang.Token
