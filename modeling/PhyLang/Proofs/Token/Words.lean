import PhyLang.Proofs.Source.Regions
import PhyLang.Proofs.Token.Place

namespace PhyLang.Token

open Source (Position Region)

/-- The texts of tokens as far as letters go: those of which every character may stand in a name, those in which
no character begins one, and strings. -/
inductive IsLettered : List Char → Prop
  | name {text : List Char} (parts : ∀ c ∈ text, isNamePart c) : IsLettered text
  | other {text : List Char} (others : ∀ c ∈ text, isNameStart c = false ∧ c ≠ '"') : IsLettered text
  | string {inside : List Char} (closed : IsInside inside) : IsLettered ('"' :: (inside ++ ['"']))

theorem isNamePart_of_isNameStart {c : Char} (start : isNameStart c) : isNamePart c := by
  rcases Bool.or_eq_true_iff.mp start with alpha | underscore
  · simp [isNamePart, Char.isAlphanum, alpha]
  · simp [isNamePart, underscore]

theorem IsIdentifier.parts {text : String} (identifier : IsIdentifier text) : ∀ c ∈ text.toList, isNamePart c := by
  obtain ⟨c, later, same, start, parts⟩ := identifier
  rw [same]
  exact List.forall_mem_cons.mpr ⟨isNamePart_of_isNameStart start, parts⟩

section Lexemes

variable {accepts : Kind → Bool} {input text : List Char} {kind : Kind}

theorem others_digit {c : Char} (digit : Text.isDigit c) : isNameStart c = false ∧ c ≠ '"' := by
  refine ⟨isNameStart_of_isDigit digit, ?_⟩
  rintro rfl
  exact absurd digit (by decide)

theorem others_int : ∀ c ∈ intLexeme input, isNameStart c = false ∧ c ≠ '"' :=
  fun c member => others_digit (List.all_eq_true.mp List.all_takeWhile c member)

theorem others_real : ∀ c ∈ realLexeme input, isNameStart c = false ∧ c ≠ '"' := by
  unfold realLexeme
  simp only
  split
  · exact List.forall_mem_nil _
  · exact List.forall_mem_nil _
  · intro c member
    rcases List.mem_append.mp member with whole | point
    · exact others_int c whole
    · rcases List.mem_cons.mp point with rfl | places
      · decide
      · exact others_int c places
  · exact List.forall_mem_nil _

theorem others_bound : ∀ c ∈ boundLexeme input, isNameStart c = false ∧ c ≠ '"' := by
  unfold boundLexeme
  split
  · split
    · exact List.forall_mem_nil _
    · exact List.forall_mem_cons.mpr ⟨by decide, others_int⟩
  · exact others_int

theorem stringTail?_closed {tail : List Char} (found : stringTail? input = some tail) :
    ∃ inside, IsInside inside ∧ tail = inside ++ ['"'] := by
  fun_induction stringTail? input generalizing tail with
  | case1 rest =>
    cases found
    exact ⟨[], .empty, rfl⟩
  | case2 => cases found
  | case3 c rest inLine ih =>
    obtain ⟨later, read, rfl⟩ := Option.map_eq_some_iff.mp found
    obtain ⟨inside, closed, rfl⟩ := ih read
    exact ⟨'\\' :: c :: inside, .escaped inLine closed, rfl⟩
  | case4 => cases found
  | case5 c rest noQuote _ others ih =>
    obtain ⟨later, read, rfl⟩ := Option.map_eq_some_iff.mp found
    obtain ⟨inside, closed, rfl⟩ := ih read
    obtain ⟨noBackslash, inLine⟩ := not_or.mp others
    exact ⟨c :: inside, .plain noQuote noBackslash inLine closed, rfl⟩
  | case6 => cases found

theorem stringLexeme_closed (found : stringLexeme input ≠ []) :
    ∃ inside, IsInside inside ∧ stringLexeme input = '"' :: (inside ++ ['"']) := by
  revert found
  unfold stringLexeme
  split
  next rest =>
    cases read : stringTail? rest with
    | none => exact fun found => absurd rfl found
    | some tail =>
      intro _
      obtain ⟨inside, closed, rfl⟩ := stringTail?_closed read
      exact ⟨inside, closed, rfl⟩
  next => exact fun found => absurd rfl found

theorem isLettered_string (found : stringLexeme input ≠ []) : IsLettered (stringLexeme input) := by
  obtain ⟨inside, closed, same⟩ := stringLexeme_closed found
  rw [same]
  exact .string closed

theorem isLettered_fixed (member : kind ∈ fixedKinds) : IsLettered (fixedText kind) := by
  rcases List.mem_append.mp member with word | mark
  · obtain ⟨w, -, rfl⟩ := List.mem_map.mp word
    exact .name (word_isIdentifier w).parts
  · obtain ⟨m, -, rfl⟩ := List.mem_map.mp mark
    refine .other fun c among => ?_
    have others : (fixedText (.mark m)).all (fun d => !isNameStart d && d != '"') := by cases m <;> decide
    simpa using List.all_eq_true.mp others c among

theorem lexeme?_isLettered (found : lexeme? accepts input = some (kind, text)) : IsLettered text := by
  cases lexeme?_isLexeme found with
  | real => exact .other others_real
  | name some =>
    have parts := (nameLexeme_isIdentifier some).parts
    rw [String.toList_ofList] at parts
    exact .name parts
  | string some => exact isLettered_string some
  | bound => exact .other others_bound
  | int => exact .other others_int
  | fixed member => exact isLettered_fixed member

/-- Behind a token there is code. -/
theorem IsLettered.past (lettered : IsLettered text) : Region.past .code text = .code := by
  cases lettered with
  | name parts =>
    refine Region.past_code fun c member => ?_
    rintro rfl
    exact absurd (parts _ member) (by decide)
  | other others => exact Region.past_code fun c member => (others c member).2
  | @string inside closed =>
    have opened : Region.past .code ('"' :: (inside ++ ['"'])) = Region.past .string (inside ++ ['"']) := rfl
    rw [opened, Region.past_append, Source.past_inside_whole closed]
    rfl

/-- What begins a name within a token, in code, stands behind a part of a name. -/
theorem IsLettered.within {before later : List Char} {c : Char} (lettered : IsLettered (before ++ c :: later))
    (start : isNameStart c) (inner : before ≠ []) (code : Region.past .code before = .code) :
    ∃ d, before.getLast? = some d ∧ isNamePart d := by
  generalize same : before ++ c :: later = text at lettered
  cases lettered with
  | name parts =>
    refine ⟨before.getLast inner, List.getLast?_eq_some_getLast inner, parts _ ?_⟩
    rw [← same]
    exact List.mem_append_left _ (List.getLast_mem inner)
  | other others =>
    have member : c ∈ text := by
      rw [← same]
      exact List.mem_append_right _ (List.mem_cons_self ..)
    rw [(others c member).1] at start
    cases start
  | @string inside closed =>
    -- Behind the opening quote, `before` lies inside of the string, since the closing quote begins no name.
    obtain ⟨d, before, rfl⟩ := List.exists_cons_of_ne_nil inner
    simp only [List.cons_append, List.cons.injEq] at same
    obtain ⟨rfl, same⟩ := same
    have opened : Region.past .code ('"' :: before) = Region.past .string before := rfl
    rcases List.append_eq_append_iff.mp same with ⟨rest, split, -⟩ | ⟨rest, -, split⟩
    · rw [opened] at code
      exact absurd code (Source.past_inside closed split)
    · cases rest with
      | nil =>
        cases split
        exact absurd start (by decide)
      | cons d rest => exact absurd (List.append_eq_nil_iff.mp (List.cons.inj split).2.symm).2 (by simp)

/-- A token that begins before a name does not reach into it. -/
theorem IsLettered.stops_before {behind before rest : List Char} {c : Char} (lettered : IsLettered text)
    (split : text ++ behind = before ++ c :: rest) (inner : before ≠ []) (code : Region.past .code before = .code)
    (start : isNameStart c) (apart : ∀ d, before.getLast? = some d → isNamePart d = false) :
    ∃ more, before = text ++ more ∧ behind = more ++ c :: rest := by
  rcases List.append_eq_append_iff.mp split with further | ⟨reached, rfl, same⟩
  · exact further
  · cases reached with
    | nil => exact ⟨[], by simp, same.symm⟩
    | cons d reached =>
      cases same
      obtain ⟨d, last, part⟩ := lettered.within start inner code
      rw [apart d last] at part
      cases part

/-- Parts of names that begin a text begin the name at its start. -/
theorem prefix_of_parts {name rest : List Char} (stops : Text.Stops isNamePart rest) (parts : ∀ c ∈ text, isNamePart c)
    (begins : text <+: name ++ rest) : text <+: name := by
  rcases List.prefix_or_prefix_of_prefix begins (List.prefix_append name rest) with inner | ⟨more, rfl⟩
  · exact inner
  · cases more with
    | nil => rw [List.append_nil]
    | cons d more =>
      obtain ⟨behind, rfl⟩ := (List.prefix_append_right_inj name).mp begins
      have part := parts d (by simp)
      rw [stops d rfl] at part
      cases part

/-- At a name, the name is found, or where names are not looked for, a word that it begins with. -/
theorem lexeme?_word {word rest : List Char} (identifier : IsIdentifier (String.ofList word))
    (stops : Text.Stops isNamePart rest) (found : lexeme? accepts (word ++ rest) = some (kind, text)) :
    kind = nameKind accepts word ∧ text = word ∨
      ∃ w : Word, kind = .word w ∧ text = w.text.toList ∧ text <+: word ∧ accepts .name = false ∧ accepts (.word w) := by
  have name := nameLexeme_identifier identifier stops
  obtain ⟨c, later, same, start, -⟩ := identifier
  rw [String.toList_ofList] at same
  subst same
  have noDigit := isDigit_of_isNameStart start
  have noQuote : c ≠ '"' := by
    rintro rfl
    exact absurd start (by decide)
  have noSign : c ≠ '-' := by
    rintro rfl
    exact absurd start (by decide)
  cases lexeme?_isLexeme found with
  | real some => exact absurd (realLexeme_other noDigit) some
  | name => exact .inl ⟨by rw [name], name⟩
  | string some => exact absurd (stringLexeme_other noQuote) some
  | bound some => exact absurd ((boundLexeme_other noSign).trans (intLexeme_other noDigit)) some
  | int some => exact absurd (intLexeme_other noDigit) some
  | fixed member accepted begins noName =>
    have unnamed : accepts .name = false := by
      by_contra names
      exact List.cons_ne_nil _ _ (name.symm.trans (noName (by simpa using names)))
    rcases List.mem_append.mp member with word | mark
    · obtain ⟨w, -, rfl⟩ := List.mem_map.mp word
      exact .inr ⟨w, rfl, rfl, prefix_of_parts stops (word_isIdentifier w).parts begins, unnamed, accepted⟩
    · obtain ⟨m, -, rfl⟩ := List.mem_map.mp mark
      obtain ⟨d, more, same, -, noStart, -⟩ := mark_first m
      have text : fixedText (.mark m) = d :: more := same
      rw [text, List.cons_append, List.cons_prefix_cons] at begins
      rw [← begins.1, noStart] at start
      cases start

/-- The kind of a name whose spelling decides it: where the words are looked for, or if the name is no word. -/
theorem nameKind_whole {name : List Char} (free : nameKind accepts name = .name → ∀ w : Word, name ≠ w.text.toList) :
    nameKind accepts name = nameKind (fun _ => true) name := by
  cases found : Word.all.find? fun w => w.text.toList == name && accepts (.word w) with
  | none =>
    have kind : nameKind accepts name = .name := by rw [nameKind, found]
    rw [kind, nameKind_name _ (free kind)]
  | some w =>
    have kind : nameKind accepts name = .word w := by rw [nameKind, found]
    have fits := List.find?_some found
    obtain rfl := eq_of_beq (Bool.and_eq_true_iff.mp fits).1
    rw [kind]
    exact (nameKind_word rfl).symm

end Lexemes

theorem finished_of_endingAt {place : Position} {rest : List Char} (finished : endingAt place rest = .finished) :
    rest = [] := by
  unfold endingAt at finished
  split at finished
  · rfl
  · split at finished <;> cases finished

theorem isSeparator_of_takeWhile {input : List Char} {c : Char} (member : c ∈ input.takeWhile Text.isSeparator) :
    Text.isSeparator c := List.all_eq_true.mp List.all_takeWhile c member

/-- Blanks are code. -/
theorem past_blanks (input : List Char) : Region.past .code (input.takeWhile Text.isSeparator) = .code := by
  refine Region.past_code fun c member => ?_
  rintro rfl
  exact absurd (isSeparator_of_takeWhile member) (by decide)

/-- Where scanning ends with the text, only blanks are left. -/
theorem blanks_of_finished {place : Position} {input : List Char} {c : Char}
    (finished : endingAt place (input.drop (input.takeWhile Text.isSeparator).length) = .finished)
    (member : c ∈ input) : Text.isSeparator c := by
  have split : input.takeWhile Text.isSeparator ++ input.drop (input.takeWhile Text.isSeparator).length = input :=
    List.prefix_iff_eq_append.mp (List.takeWhile_prefix _)
  rw [finished_of_endingAt finished, List.append_nil] at split
  rw [← split] at member
  exact isSeparator_of_takeWhile member

/-- A visible character stands behind the blanks at the start of a text. -/
theorem behind_blanks {input before rest : List Char} {c : Char} (split : input = before ++ c :: rest)
    (visible : Text.isSeparator c = false) : ∃ middle, before = input.takeWhile Text.isSeparator ++ middle ∧
      input.drop (input.takeWhile Text.isSeparator).length = middle ++ c :: rest := by
  have whole : input.takeWhile Text.isSeparator ++ input.drop (input.takeWhile Text.isSeparator).length = input :=
    List.prefix_iff_eq_append.mp (List.takeWhile_prefix _)
  rcases List.append_eq_append_iff.mp (split.symm.trans whole.symm) with ⟨more, inner, same⟩ | further
  · cases more with
    | nil => exact ⟨[], by rw [inner, List.append_nil, List.append_nil], same.symm⟩
    | cons d more =>
      obtain ⟨rfl, -⟩ := List.cons.inj same
      have blank : c ∈ input.takeWhile Text.isSeparator := inner ▸ List.mem_append_right _ (List.mem_cons_self ..)
      rw [isSeparator_of_takeWhile blank] at visible
      cases visible
  · exact further

/-- Whether a token is found at the start of a text, in some mode, and is among given tokens at its place. -/
def IsFoundAmong (tokens : List Token) (place : Position) (input : List Char) : Prop :=
  ∃ (mode : Mode) (kind : Kind) (text : List Char), lexeme? mode.accepts input = some (kind, text) ∧
    ⟨kind, text, ⟨place, place.advance text⟩⟩ ∈ tokens

/-- A text that ends in no part of a name still does so when its beginning is left out. -/
theorem notPart_of_append {first later : List Char}
    (apart : ∀ d, (first ++ later).getLast? = some d → isNamePart d = false) :
    ∀ d, later.getLast? = some d → isNamePart d = false := by
  intro d last
  refine apart d ?_
  rw [List.getLast?_append, last]
  rfl

/-- In a text that is scanned to its end, a token starts wherever a name begins in code, unless a part of a name
stands before it. -/
theorem scanFrom_found_among {mode : Mode} {place : Position} {input before rest : List Char} {c : Char}
    (finished : (scanFrom mode place input).ending = .finished) (split : input = before ++ c :: rest)
    (code : Region.past .code before = .code) (start : isNameStart c)
    (apart : ∀ d, before.getLast? = some d → isNamePart d = false) :
    IsFoundAmong (scanFrom mode place input).tokens (place.advance before) (c :: rest) := by
  have visible : Text.isSeparator c = false := not_isSeparator start (by decide)
  have member : c ∈ input := split ▸ List.mem_append_right _ (List.mem_cons_self ..)
  fun_induction scanFrom mode place input generalizing before with
  | case1 =>
    rw [blanks_of_finished finished member] at visible
    cases visible
  | case2 mode place input blanks remaining begins kind text found progress stop later =>
    rename_i ih
    obtain ⟨behind, tail⟩ := lexeme?_isPrefix found
    have dropped : remaining.drop text.length = behind := by rw [← tail, List.drop_left]
    obtain ⟨middle, rfl, outer⟩ := behind_blanks split visible
    rw [Region.past_append, past_blanks] at code
    by_cases here : middle = []
    · subst here
      rw [List.nil_append] at outer
      rw [List.append_nil, ← outer]
      exact ⟨mode, kind, text, found, List.mem_cons_self ..⟩
    · have apartHere := notPart_of_append apart
      obtain ⟨more, rfl, rest⟩ := (lexeme?_isLettered found).stops_before (tail.trans outer) here code start apartHere
      rw [dropped] at ih
      have codeLater : Region.past .code more = .code := by
        rw [Region.past_append, (lexeme?_isLettered found).past] at code
        exact code
      have memberLater : c ∈ behind := rest ▸ List.mem_append_right _ (List.mem_cons_self ..)
      obtain ⟨looking, kind', text', found', among⟩ :=
        ih (dropped ▸ finished) rest codeLater (notPart_of_append apartHere) memberLater
      have stops : place.advance (blanks ++ (text ++ more)) = stop.advance more := by
        rw [Position.advance_append, Position.advance_append]
      refine ⟨looking, kind', text', found', List.mem_cons_of_mem _ ?_⟩
      rw [stops]
      simp only [later, dropped]
      exact among
  | case3 =>
    rw [blanks_of_finished finished member] at visible
    cases visible

end PhyLang.Token
