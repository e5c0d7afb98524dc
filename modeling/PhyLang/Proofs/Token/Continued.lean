import PhyLang.Proofs.Token.Scans

namespace PhyLang.Token

open PhyLang.Text (Stops)
open Source (Position)

/-- What goes on with a semicolon or a line end, or not at all. -/
def IsCut (extra : List Char) : Prop := ∀ c, extra.head? = some c → c = ';' ∨ c = '\n'

section Lexemes

variable {accepts : Kind → Bool} {input extra text : List Char} {kind : Kind}

theorem IsCut.stops {isMember : Char → Bool} (cut : IsCut extra)
    (others : isMember ';' = false ∧ isMember '\n' = false) : Stops isMember extra := by
  intro c first
  rcases cut c first with rfl | rfl
  · exact others.1
  · exact others.2

theorem takeWhile_append {isMember : Char → Bool} (stops : Stops isMember extra) (input : List Char) :
    (input ++ extra).takeWhile isMember = input.takeWhile isMember := by
  induction input with
  | nil =>
    cases extra with
    | nil => rfl
    | cons c extra => rw [List.nil_append, List.takeWhile_cons_of_neg (by simp [stops c rfl]), List.takeWhile_nil]
  | cons c input ih => rw [List.cons_append, List.takeWhile_cons, List.takeWhile_cons, ih]

theorem intLexeme_append (cut : IsCut extra) : intLexeme (input ++ extra) = intLexeme input :=
  takeWhile_append (cut.stops (by decide)) input

theorem nameLexeme_append (cut : IsCut extra) (nonempty : input ≠ []) : nameLexeme (input ++ extra) = nameLexeme input := by
  obtain ⟨c, rest, rfl⟩ := List.exists_cons_of_ne_nil nonempty
  rw [List.cons_append, nameLexeme, nameLexeme, takeWhile_append (cut.stops (by decide))]

/-- The real that begins with given digits, by what stands behind them. -/
def realBehind (whole behind : List Char) : List Char :=
  match whole, behind with
  | [], _ | _, '.' :: '.' :: _ => []
  | _, '.' :: rest => whole ++ '.' :: intLexeme rest
  | _, _ => []

theorem realBehind_other {whole behind : List Char} (noPoint : behind.head? ≠ some '.') : realBehind whole behind = [] := by
  unfold realBehind
  split
  · rfl
  · rfl
  · exact absurd rfl noPoint
  · rfl

theorem realBehind_point {whole rest : List Char} (nonempty : whole ≠ []) (noRange : rest.head? ≠ some '.') :
    realBehind whole ('.' :: rest) = whole ++ '.' :: intLexeme rest := by
  unfold realBehind
  split
  · exact absurd rfl nonempty
  next range =>
    cases range
    exact absurd rfl noRange
  next same =>
    cases same
    rfl
  next other => exact absurd rfl (other _)

theorem realBehind_append (cut : IsCut extra) (whole behind : List Char) :
    realBehind whole (behind ++ extra) = realBehind whole behind := by
  have noPoint : extra.head? ≠ some '.' := fun point => by simpa using cut '.' point
  by_cases none : whole = []
  · rw [none]
    rfl
  cases behind with
  | nil => rw [List.nil_append, realBehind_other noPoint, realBehind_other (by simp)]
  | cons c rest =>
    by_cases point : c = '.'
    · subst point
      by_cases range : rest.head? = some '.'
      · obtain ⟨later, rfl⟩ := List.head?_eq_some_iff.mp range
        rw [List.cons_append, List.cons_append]
        unfold realBehind
        cases whole <;> rfl
      · have noRange : (rest ++ extra).head? ≠ some '.' := by
          cases rest with
          | nil => exact noPoint
          | cons => exact range
        rw [List.cons_append, realBehind_point none noRange, realBehind_point none range, intLexeme_append cut]
    · rw [List.cons_append, realBehind_other (by simpa using point), realBehind_other (by simpa using point)]

theorem realLexeme_append (cut : IsCut extra) : realLexeme (input ++ extra) = realLexeme input := by
  have inside : (intLexeme input).length ≤ input.length := intLexeme_isPrefix.length_le
  have behind : realLexeme (input ++ extra) =
      realBehind (intLexeme (input ++ extra)) ((input ++ extra).drop (intLexeme (input ++ extra)).length) := rfl
  rw [behind, intLexeme_append cut, List.drop_append_of_le_length inside, realBehind_append cut]
  rfl

theorem boundLexeme_append (cut : IsCut extra) (nonempty : input ≠ []) :
    boundLexeme (input ++ extra) = boundLexeme input := by
  obtain ⟨c, rest, rfl⟩ := List.exists_cons_of_ne_nil nonempty
  by_cases sign : c = '-'
  · subst sign
    rw [List.cons_append, boundLexeme, boundLexeme, intLexeme_append cut]
  · rw [List.cons_append, boundLexeme_other sign, boundLexeme_other sign, ← List.cons_append, intLexeme_append cut]

theorem stringTail?_append {tail : List Char} (found : stringTail? input = some tail) :
    stringTail? (input ++ extra) = some tail := by
  fun_induction stringTail? input generalizing tail with
  | case1 rest => exact found
  | case2 => cases found
  | case3 c rest inLine ih =>
    obtain ⟨later, read, rfl⟩ := Option.map_eq_some_iff.mp found
    rw [List.cons_append, List.cons_append, stringTail?, if_neg inLine, ih read]
    rfl
  | case4 => cases found
  | case5 c rest noQuote noEscape others ih =>
    obtain ⟨later, read, rfl⟩ := Option.map_eq_some_iff.mp found
    rw [List.cons_append, stringTail?, if_neg others, ih read]
    · rfl
    · exact noQuote
    · exact fun d later same _ => others (.inl same)
  | case6 => cases found

theorem fixedText_cut : ∀ kind ∈ fixedKinds, ';' ∉ (fixedText kind).tail ∧ '\n' ∉ (fixedText kind).tail := by
  decide

/-- Behind its first character no word and no mark reaches beyond a text that is cut. -/
theorem isPrefixOf_append {fixed : List Char} (cut : IsCut extra) (noCut : ';' ∉ fixed ∧ '\n' ∉ fixed)
    (text : List Char) : fixed.isPrefixOf (text ++ extra) = fixed.isPrefixOf text := by
  induction fixed generalizing text with
  | nil => rfl
  | cons c fixed ih =>
    obtain ⟨noSemicolon, noLineEnd⟩ := noCut
    cases text with
    | nil =>
      cases extra with
      | nil => rfl
      | cons d extra =>
        have other : c ≠ d := by
          rintro rfl
          rcases cut c rfl with rfl | rfl
          · exact noSemicolon (List.mem_cons_self ..)
          · exact noLineEnd (List.mem_cons_self ..)
        rw [List.nil_append, List.isPrefixOf_cons_cons, beq_false_of_ne other, Bool.false_and]
        rfl
    | cons d text =>
      rw [List.cons_append, List.isPrefixOf, List.isPrefixOf,
        ih ⟨mt (List.mem_cons_of_mem _) noSemicolon, mt (List.mem_cons_of_mem _) noLineEnd⟩]

theorem fixedLexeme?_append (cut : IsCut extra) (nonempty : input ≠ []) :
    fixedLexeme? accepts (input ++ extra) = fixedLexeme? accepts input := by
  obtain ⟨c, rest, rfl⟩ := List.exists_cons_of_ne_nil nonempty
  have same : ∀ kind ∈ fixedKinds, (accepts kind && (fixedText kind).isPrefixOf (c :: rest ++ extra)) =
      (accepts kind && (fixedText kind).isPrefixOf (c :: rest)) := by
    intro kind member
    have noCut := fixedText_cut kind member
    cases text : fixedText kind with
    | nil => rfl
    | cons d fixed =>
      rw [text, List.tail_cons] at noCut
      rw [List.cons_append, List.isPrefixOf, List.isPrefixOf, isPrefixOf_append cut noCut]
  rw [fixedLexeme?, fixedLexeme?, List.find?_congr same]

theorem fixedText_quote : ∀ kind ∈ fixedKinds, (fixedText kind).head? ≠ some '"' ∧ fixedText kind ≠ [] := by
  decide

/-- At a quote only a string is found. -/
theorem lexeme?_quote {rest : List Char} (found : lexeme? accepts ('"' :: rest) = some (kind, text)) :
    stringLexeme ('"' :: rest) ≠ [] := by
  cases lexeme?_isLexeme found with
  | real some => exact absurd (realLexeme_other (by decide)) some
  | name some => exact absurd (nameLexeme_other (by decide)) some
  | string some => exact some
  | bound some => exact absurd ((boundLexeme_other (by decide)).trans (intLexeme_other (by decide))) some
  | int some => exact absurd (intLexeme_other (by decide)) some
  | fixed member _ begins =>
    obtain ⟨noQuote, some⟩ := fixedText_quote kind member
    obtain ⟨c, later, same⟩ := List.exists_cons_of_ne_nil some
    rw [same, List.cons_prefix_cons] at begins
    rw [same, begins.1] at noQuote
    exact absurd rfl noQuote

/-- A string is found where it was found before, if a token was found at all. -/
theorem stringLexeme_append (found : lexeme? accepts input = some (kind, text)) (nonempty : input ≠ []) :
    stringLexeme (input ++ extra) = stringLexeme input := by
  obtain ⟨c, rest, rfl⟩ := List.exists_cons_of_ne_nil nonempty
  by_cases quote : c = '"'
  · subst quote
    have closed := lexeme?_quote found
    rw [stringLexeme] at closed
    cases read : stringTail? rest with
    | none =>
      rw [read] at closed
      exact absurd rfl closed
    | some tail => rw [List.cons_append, stringLexeme, stringLexeme, read, stringTail?_append read]
  · rw [List.cons_append, stringLexeme_other quote, stringLexeme_other quote]

/-- A token that is found in a text is found in the text with more behind it. -/
theorem lexeme?_append (cut : IsCut extra) (nonempty : input ≠ []) (found : lexeme? accepts input = some (kind, text)) :
    lexeme? accepts (input ++ extra) = some (kind, text) := by
  rw [← found]
  unfold lexeme?
  rw [realLexeme_append cut, nameLexeme_append cut nonempty, stringLexeme_append found nonempty,
    boundLexeme_append cut nonempty, intLexeme_append cut, fixedLexeme?_append cut nonempty]

end Lexemes

/-- The mode behind tokens. -/
def Mode.after (mode : Mode) (tokens : List Token) : Mode := tokens.foldl (fun mode token => mode.next token.kind) mode

/-- A text and then what it is cut from are scanned as the tokens of both. -/
theorem Scans.append {mode : Mode} {place : Position} {input extra : List Char} {tokens later : List Token}
    (cut : IsCut extra) (scans : Scans mode place input tokens)
    (scansLater : Scans (mode.after tokens) (place.advance input) extra later) :
    Scans mode place (input ++ extra) (tokens ++ later) := by
  induction scans with
  | blanks separators => exact scansLater.prepend separators
  | @token mode place blanks text behind kind _ separators found visible _ ih =>
    have nonempty : text ++ behind ≠ [] := by
      obtain ⟨c, more, rfl, -⟩ := visible
      exact List.cons_ne_nil _ _
    rw [Position.advance_append, Position.advance_append] at scansLater
    rw [List.append_assoc, List.append_assoc]
    refine .token separators ?_ visible (ih scansLater)
    rw [← List.append_assoc]
    exact lexeme?_append cut nonempty found

end PhyLang.Token
