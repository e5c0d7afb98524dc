import PhyLang.Proofs.Integer.Digits
import PhyLang.Token.Literal
import PhyLang.Token.Scan

namespace PhyLang

namespace Source.Position

/-- Whether the line and the column of a place are at most a given number. -/
def Within (p : Position) (limit : Nat) : Prop := p.line ≤ limit ∧ p.column ≤ limit

theorem Within.mono {p : Position} {least most : Nat} (within : p.Within least) (le : least ≤ most) :
    p.Within most := ⟨within.1.trans le, within.2.trans le⟩

theorem Within.advance {p : Position} {limit : Nat} (within : p.Within limit) (word : List Char) :
    (p.advance word).Within (limit + word.length) := by
  induction word generalizing p limit with
  | nil => exact within
  | cons c word ih =>
    have step : (p.next c).Within (limit + 1) := by
      obtain ⟨line, column⟩ := within
      unfold next
      split
      · exact ⟨by simp only; omega, by simp only; omega⟩
      · exact ⟨by simp only; omega, by simp only; omega⟩
    exact (ih step).mono (by rw [List.length_cons]; omega)

end Source.Position

namespace Token

/-- Whether a text is a name of the language: letters, digits and underscores, of which the first is
no digit. -/
def IsIdentifier (text : String) : Prop :=
  ∃ c rest, text.toList = c :: rest ∧ isNameStart c ∧ ∀ d ∈ rest, isNamePart d

/-- Whether a text is the text of a token of some kind, as far as names, words and marks go. -/
def Spelled : Kind → List Char → Prop
  | .name, text => IsIdentifier (String.ofList text)
  | .word w, text => text = w.text.toList
  | .mark m, text => text = m.text.toList
  | _, _ => True

theorem nameLexeme_isIdentifier {input : List Char} (found : nameLexeme input ≠ []) :
    IsIdentifier (String.ofList (nameLexeme input)) := by
  cases input with
  | nil => exact absurd rfl found
  | cons c rest =>
    unfold nameLexeme at found ⊢
    simp only at found ⊢
    split at found
    · rename_i start
      rw [if_pos start]
      refine ⟨c, rest.takeWhile isNamePart, String.toList_ofList, start, ?_⟩
      exact List.all_eq_true.mp List.all_takeWhile
    · exact absurd rfl found

theorem nameKind_spelled (accepts : Kind → Bool) {name : List Char} (identifier : IsIdentifier (String.ofList name)) :
    Spelled (nameKind accepts name) name := by
  unfold nameKind
  split
  · rename_i w found
    have fits := List.find?_some found
    simp only [Bool.and_eq_true, beq_iff_eq] at fits
    exact fits.1.symm
  · exact identifier

theorem fixedText_spelled {kind : Kind} (member : kind ∈ fixedKinds) : Spelled kind (fixedText kind) := by
  unfold fixedKinds at member
  rcases List.mem_append.mp member with word | mark
  · obtain ⟨w, -, rfl⟩ := List.mem_map.mp word
    exact rfl
  · obtain ⟨m, -, rfl⟩ := List.mem_map.mp mark
    exact rfl

/-- How a token is found: as one of the kinds with many texts, or as a word or mark where no name is found. -/
inductive IsLexeme (accepts : Kind → Bool) (input : List Char) : Kind → List Char → Prop
  | real (some : realLexeme input ≠ []) : IsLexeme accepts input .real (realLexeme input)
  | name (some : nameLexeme input ≠ []) :
      IsLexeme accepts input (nameKind accepts (nameLexeme input)) (nameLexeme input)
  | string (some : stringLexeme input ≠ []) : IsLexeme accepts input .string (stringLexeme input)
  | bound (some : boundLexeme input ≠ []) : IsLexeme accepts input .bound (boundLexeme input)
  | int (some : intLexeme input ≠ []) : IsLexeme accepts input .int (intLexeme input)
  | fixed {kind : Kind} (member : kind ∈ fixedKinds) (accepted : accepts kind) (begins : fixedText kind <+: input)
      (noName : accepts .name → nameLexeme input = []) : IsLexeme accepts input kind (fixedText kind)

theorem lexeme?_isLexeme {accepts : Kind → Bool} {input text : List Char} {kind : Kind}
    (found : lexeme? accepts input = some (kind, text)) : IsLexeme accepts input kind text := by
  unfold lexeme? at found
  split at found
  next real =>
    cases found
    exact .real real.2
  split at found
  next name =>
    cases found
    exact .name name.2
  next noName =>
    split at found
    next string =>
      cases found
      exact .string string.2
    split at found
    next bound =>
      cases found
      exact .bound bound.2
    split at found
    next int =>
      cases found
      exact .int int.2
    obtain ⟨fixed, chosen, same⟩ := Option.map_eq_some_iff.mp found
    cases same
    have fits := List.find?_some chosen
    obtain ⟨accepted, begins⟩ := Bool.and_eq_true_iff.mp fits
    refine .fixed (List.mem_of_find?_eq_some chosen) accepted (List.isPrefixOf_iff_prefix.mp begins) fun names => ?_
    exact not_not.mp fun some => noName ⟨names, some⟩

theorem lexeme?_spelled {accepts : Kind → Bool} {input text : List Char} {kind : Kind}
    (found : lexeme? accepts input = some (kind, text)) : Spelled kind text := by
  cases lexeme?_isLexeme found with
  | name some => exact nameKind_spelled accepts (nameLexeme_isIdentifier some)
  | fixed member => exact fixedText_spelled member
  | _ => trivial

theorem scanFrom_spelled {mode : Mode} {place : Source.Position} {input : List Char} :
    ∀ token ∈ (scanFrom mode place input).tokens, Spelled token.kind token.text := by
  fun_induction scanFrom mode place input with
  | case1 => simp
  | case2 mode place input blanks rest start kind text found progress stop later ih =>
    intro token member
    rcases List.mem_cons.mp member with rfl | inside
    · exact lexeme?_spelled found
    · exact ih token inside
  | case3 => simp

/-- Every token of a text is spelled as its kind asks for. -/
theorem scan_spelled {input : List Char} : ∀ token ∈ (scan input).tokens, Spelled token.kind token.text :=
  scanFrom_spelled

/-- No token of a text lies further than the text is long. -/
theorem scanFrom_within {mode : Mode} {place : Source.Position} {input : List Char} {limit : Nat}
    (within : place.Within limit) : ∀ token ∈ (scanFrom mode place input).tokens,
      token.span.start.Within (limit + input.length) ∧ token.span.stop.Within (limit + input.length) := by
  fun_induction scanFrom mode place input generalizing limit with
  | case1 => simp
  | case2 mode place input blanks rest start kind text found progress stop later =>
    rename_i ih
    -- `limit` bounds the place where this part of the text starts.
    have before : blanks.length ≤ input.length := (List.takeWhile_prefix _).length_le
    have after : rest.length = input.length - blanks.length := List.length_drop
    have atStart : start.Within (limit + blanks.length) := within.advance blanks
    have atStop : stop.Within (limit + blanks.length + text.length) := atStart.advance text
    intro token member
    rcases List.mem_cons.mp member with rfl | inside
    · exact ⟨atStart.mono (by omega), atStop.mono (by omega)⟩
    · obtain ⟨first, last⟩ := ih atStop token inside
      rw [List.length_drop] at first last
      exact ⟨first.mono (by omega), last.mono (by omega)⟩
  | case3 => simp

theorem scan_within {input : List Char} : ∀ token ∈ (scan input).tokens,
    token.span.start.Within (1 + input.length) ∧ token.span.stop.Within (1 + input.length) :=
  scanFrom_within ⟨le_rfl, le_rfl⟩

/-- An integer literal or a range bound that is not malformed can be written. -/
theorem intValue_writable {token : Token} (number : token.kind = .int ∨ token.kind = .bound)
    (wellFormed : literalFault? token = none) : Integer.isWritable (intValue token.text) := by
  have short : (Integer.splitSign token.text).2.length ≤ Integer.digitLimit := by
    unfold literalFault? at wellFormed
    rcases number with kind | kind
    · rw [kind] at wellFormed
      simpa using wellFormed
    · rw [kind] at wellFormed
      simpa using wellFormed
  have below := Integer.digitsValue_writable short
  have size : (intValue token.text).natAbs = Text.digitsValue 0 (Integer.splitSign token.text).2 := by
    unfold intValue Integer.signed
    simp only
    split <;> simp
  rw [Integer.isWritable, size]
  exact decide_eq_true below

end Token

end PhyLang
