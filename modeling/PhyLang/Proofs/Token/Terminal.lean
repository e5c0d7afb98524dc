import PhyLang.Proofs.Token.Scan
import PhyLang.Token.Mode

namespace PhyLang.Token

open PhyLang.Text (Stops)

/-- A text that may stand between the quotes of a string: each quote and each backslash in it has a
backslash before it, and no line ends in it. -/
inductive IsInside : List Char → Prop
  | empty : IsInside []
  | plain {c : Char} {rest : List Char} (noQuote : c ≠ '"') (noBackslash : c ≠ '\\') (noLineEnd : c ≠ '\n')
      (later : IsInside rest) : IsInside (c :: rest)
  | escaped {c : Char} {rest : List Char} (noLineEnd : c ≠ '\n') (later : IsInside rest) :
      IsInside ('\\' :: c :: rest)

/-- Digits of any script, at least one. -/
def IsDigits (text : List Char) : Prop := text ≠ [] ∧ ∀ c ∈ text, Text.isDigit c

/-- The texts of a kind of tokens: a name is spelled like no word, an integer or a range bound has no
more digits than can be converted, and a string has a value. -/
inductive IsTextOf : Kind → List Char → Prop
  | name {text : List Char} (identifier : IsIdentifier (String.ofList text))
      (free : ∀ w : Word, text ≠ w.text.toList) : IsTextOf .name text
  | int {digits : List Char} (allDigits : IsDigits digits) (short : digits.length ≤ Integer.digitLimit) :
      IsTextOf .int digits
  | real {whole places : List Char} (allDigits : IsDigits whole) (digitPlaces : ∀ c ∈ places, Text.isDigit c) :
      IsTextOf .real (whole ++ '.' :: places)
  | string {inside : List Char} (closed : IsInside inside) (valid : (unescape? inside).isSome) :
      IsTextOf .string ('"' :: inside ++ ['"'])
  | bound {digits : List Char} (allDigits : IsDigits digits) (short : digits.length ≤ Integer.digitLimit) :
      IsTextOf .bound digits
  | negative {digits : List Char} (allDigits : IsDigits digits) (short : digits.length ≤ Integer.digitLimit) :
      IsTextOf .bound ('-' :: digits)
  | word (w : Word) : IsTextOf (.word w) w.text.toList
  | mark (m : Mark) : IsTextOf (.mark m) m.text.toList

/-- What a blank or the end of the text separates from the token before it. -/
def IsApart (rest : List Char) : Prop := ∀ c, rest.head? = some c → c = ' '

theorem IsApart.stops {isMember : Char → Bool} {rest : List Char} (apart : IsApart rest)
    (blank : isMember ' ' = false) : Stops isMember rest := by
  intro c first
  rw [apart c first]
  exact blank

section Lexemes

variable {rest : List Char}

theorem IsDigits.first {digits : List Char} (allDigits : IsDigits digits) :
    ∃ c later, digits = c :: later ∧ Text.isDigit c := by
  obtain ⟨some, all⟩ := allDigits
  obtain ⟨c, later, rfl⟩ := List.exists_cons_of_ne_nil some
  exact ⟨c, later, rfl, all c (List.mem_cons_self ..)⟩

theorem intLexeme_digits {digits : List Char} (allDigits : IsDigits digits) (stops : Stops Text.isDigit rest) :
    intLexeme (digits ++ rest) = digits := Text.takeWhile_run allDigits.2 stops

theorem intLexeme_other {c : Char} (other : Text.isDigit c = false) : intLexeme (c :: rest) = [] := by
  rw [intLexeme, List.takeWhile_cons_of_neg (by simp [other])]

theorem intLexeme_apart (apart : IsApart rest) : intLexeme rest = [] :=
  Text.takeWhile_run (List.forall_mem_nil _) (apart.stops (by decide))

theorem realLexeme_other {c : Char} (other : Text.isDigit c = false) : realLexeme (c :: rest) = [] := by
  rw [realLexeme, intLexeme_other other]

theorem realLexeme_digits {digits : List Char} (allDigits : IsDigits digits) (apart : IsApart rest) :
    realLexeme (digits ++ rest) = [] := by
  unfold realLexeme
  simp only [intLexeme_digits allDigits (apart.stops (by decide)), List.drop_left]
  obtain ⟨c, later, rfl, -⟩ := allDigits.first
  cases rest with
  | nil => rfl
  | cons d rest =>
    cases apart d rfl
    rfl

theorem realLexeme_real {whole places : List Char} (allDigits : IsDigits whole)
    (digitPlaces : ∀ c ∈ places, Text.isDigit c) (apart : IsApart rest) :
    realLexeme (whole ++ '.' :: places ++ rest) = whole ++ '.' :: places := by
  have later : intLexeme (places ++ rest) = places := Text.takeWhile_run digitPlaces (apart.stops (by decide))
  have noRange : (places ++ rest).head? ≠ some '.' := by
    intro point
    cases places with
    | nil => exact absurd (apart '.' point) (by decide)
    | cons d places =>
      cases Option.some.inj point
      exact absurd (digitPlaces '.' (List.mem_cons_self ..)) (by decide)
  have point : Stops Text.isDigit ('.' :: (places ++ rest)) := Stops.cons (by decide) _
  rw [List.append_assoc, List.cons_append]
  unfold realLexeme
  simp only [intLexeme_digits allDigits point, List.drop_left]
  obtain ⟨c, more, rfl, -⟩ := allDigits.first
  split
  next empty => cases empty
  next range _ =>
    rw [(List.cons.inj range).2] at noRange
    exact absurd rfl noRange
  next single _ =>
    rw [← (List.cons.inj single).2, later]
  next other => exact absurd rfl (other _)

/-- What may begin a name is no digit. -/
theorem isDigit_of_isNameStart {c : Char} (start : isNameStart c) : Text.isDigit c = false := by
  have letter : c.toNat < 0x80 ∧ ¬('0' ≤ c ∧ c ≤ '9') := by
    have nine : '9'.val.toNat = 57 := rfl
    simp only [Char.le_def, UInt32.le_iff_toNat_le, Char.toNat, nine]
    rcases Bool.or_eq_true_iff.mp start with alpha | underscore
    · rcases Bool.or_eq_true_iff.mp alpha with upper | lower
      · obtain ⟨least, most⟩ := of_decide_eq_true upper
        have least : 65 ≤ c.val.toNat := least
        have most : c.val.toNat ≤ 90 := most
        omega
      · obtain ⟨least, most⟩ := Bool.and_eq_true_iff.mp lower
        have least : 97 ≤ c.val.toNat := of_decide_eq_true least
        have most : c.val.toNat ≤ 122 := of_decide_eq_true most
        omega
    · cases eq_of_beq underscore
      decide
  rw [Text.isDigit, Text.digitValue?, if_pos letter.1, if_neg letter.2]
  rfl

theorem nameLexeme_other {c : Char} (other : isNameStart c = false) : nameLexeme (c :: rest) = [] := by
  rw [nameLexeme, if_neg (by simp [other])]

theorem isNameStart_of_isDigit {c : Char} (digit : Text.isDigit c) : isNameStart c = false := by
  by_contra start
  rw [isDigit_of_isNameStart (by simpa using start)] at digit
  cases digit

theorem nameLexeme_identifier {text : List Char} (identifier : IsIdentifier (String.ofList text))
    (stops : Stops isNamePart rest) : nameLexeme (text ++ rest) = text := by
  obtain ⟨c, later, same, start, parts⟩ := identifier
  rw [String.toList_ofList] at same
  subst same
  rw [List.cons_append, nameLexeme, if_pos start, Text.takeWhile_run parts stops]

theorem word_isIdentifier (w : Word) : IsIdentifier w.text := by
  cases w <;> exact ⟨_, _, rfl, by decide, List.all_eq_true.mp (by decide)⟩

theorem nameKind_name (accepts : Kind → Bool) {text : List Char} (free : ∀ w : Word, text ≠ w.text.toList) :
    nameKind accepts text = .name := by
  have none : (Word.all.find? fun w => w.text.toList == text && accepts (.word w)) = none := by
    refine List.find?_eq_none.mpr fun w _ fits => free w ?_
    exact (beq_iff_eq.mp (Bool.and_eq_true_iff.mp fits).1).symm
  rw [nameKind, none]

theorem Word.eq_of_text {v w : Word} (same : v.text.toList = w.text.toList) : v = w := by
  have distinct : ∀ v ∈ Word.all, ∀ w ∈ Word.all, v.text.toList = w.text.toList → v = w := by decide
  exact distinct v (by cases v <;> decide) w (by cases w <;> decide) same

theorem nameKind_word {accepts : Kind → Bool} {w : Word} (accepted : accepts (.word w)) :
    nameKind accepts w.text.toList = .word w := by
  have fits : (w.text.toList == w.text.toList && accepts (.word w)) = true := by simp [accepted]
  unfold nameKind
  split
  next v found =>
    have both := List.find?_some found
    simp only [Bool.and_eq_true, beq_iff_eq] at both
    rw [Word.eq_of_text both.1]
  next none => exact absurd fits (List.find?_eq_none.mp none w (by cases w <;> decide))

theorem stringTail?_inside {inside : List Char} (closed : IsInside inside) :
    stringTail? (inside ++ '"' :: rest) = some (inside ++ ['"']) := by
  induction closed with
  | empty => rfl
  | plain noQuote noBackslash noLineEnd later ih =>
    rw [List.cons_append, stringTail?, if_neg (by simp [noBackslash, noLineEnd]), ih]
    · rfl
    · exact noQuote
    · exact fun d later same _ => noBackslash same
  | escaped noLineEnd later ih =>
    rw [List.cons_append, List.cons_append, stringTail?, if_neg noLineEnd, ih]
    rfl

theorem stringLexeme_string {inside : List Char} (closed : IsInside inside) :
    stringLexeme ('"' :: inside ++ ['"'] ++ rest) = '"' :: inside ++ ['"'] := by
  rw [List.append_assoc, List.cons_append, List.singleton_append, stringLexeme, stringTail?_inside closed]
  rfl

theorem stringLexeme_other {c : Char} (other : c ≠ '"') : stringLexeme (c :: rest) = [] := by
  unfold stringLexeme
  split
  next quote =>
    cases quote
    exact absurd rfl other
  next => rfl

theorem boundLexeme_other {c : Char} (other : c ≠ '-') : boundLexeme (c :: rest) = intLexeme (c :: rest) := by
  unfold boundLexeme
  split
  next sign =>
    cases sign
    exact absurd rfl other
  next => rfl

theorem boundLexeme_digits {digits : List Char} (allDigits : IsDigits digits) (apart : IsApart rest) :
    boundLexeme (digits ++ rest) = digits := by
  have run := intLexeme_digits allDigits (apart.stops (by decide))
  obtain ⟨c, later, rfl, digit⟩ := allDigits.first
  have noSign : c ≠ '-' := by
    rintro rfl
    exact absurd digit (by decide)
  rw [List.cons_append] at run ⊢
  rw [boundLexeme_other noSign, run]

theorem boundLexeme_negative {digits : List Char} (allDigits : IsDigits digits) (apart : IsApart rest) :
    boundLexeme ('-' :: digits ++ rest) = '-' :: digits := by
  have run := intLexeme_digits allDigits (apart.stops (by decide))
  rw [List.cons_append, boundLexeme, run, if_neg (by simp [allDigits.1])]

/-- A mark begins with no digit, letter or quote, and with a minus sign only if it is one. -/
theorem mark_first (m : Mark) : ∃ c later, m.text.toList = c :: later ∧ Text.isDigit c = false ∧
    isNameStart c = false ∧ c ≠ '"' ∧ (c = '-' → m = .minus) := by
  cases m <;> exact ⟨_, _, rfl, by decide, by decide, by decide, by decide⟩

theorem boundLexeme_mark (m : Mark) (apart : IsApart rest) : boundLexeme (m.text.toList ++ rest) = [] := by
  obtain ⟨c, later, text, noDigit, -, -, sign⟩ := mark_first m
  by_cases minus : c = '-'
  · rw [sign minus]
    change boundLexeme ('-' :: rest) = []
    rw [boundLexeme, intLexeme_apart apart]
    rfl
  · rw [text, List.cons_append, boundLexeme_other minus, intLexeme_other noDigit]

/-- No word or mark that is tried before another one is the beginning of it. -/
theorem fixedKinds_find? : ∀ kind ∈ fixedKinds,
    fixedKinds.find? (fun other => (fixedText other).isPrefixOf (fixedText kind)) = some kind := by
  decide

theorem fixedText_noBlank : ∀ kind ∈ fixedKinds, ' ' ∉ fixedText kind := by
  decide

/-- What begins with a text without blanks begins with it before the first blank. -/
theorem isPrefixOf_apart {fixed text : List Char} (noBlank : ' ' ∉ fixed) (apart : IsApart rest)
    (begins : fixed.isPrefixOf (text ++ rest)) : fixed.isPrefixOf text := by
  induction fixed generalizing text with
  | nil => rfl
  | cons c fixed ih =>
    obtain ⟨noFirst, noLater⟩ := not_or.mp (mt List.mem_cons.mpr noBlank)
    cases text with
    | nil =>
      cases rest with
      | nil => cases begins
      | cons d rest =>
        have same := (Bool.and_eq_true_iff.mp begins).1
        cases apart d rfl
        exact absurd (beq_iff_eq.mp same).symm noFirst
    | cons d text =>
      obtain ⟨same, later⟩ := Bool.and_eq_true_iff.mp begins
      exact Bool.and_eq_true_iff.mpr ⟨same, ih noLater later⟩

theorem fixedLexeme?_fixed {accepts : Kind → Bool} {kind : Kind} (member : kind ∈ fixedKinds)
    (accepted : accepts kind) (apart : IsApart rest) :
    fixedLexeme? accepts (fixedText kind ++ rest) = some (kind, fixedText kind) := by
  obtain ⟨-, before, after, order, others⟩ :=
    List.find?_eq_some_iff_append.mp (fixedKinds_find? kind member)
  have fits : (fixedText kind).isPrefixOf (fixedText kind ++ rest) :=
    List.isPrefixOf_iff_prefix.mpr (List.prefix_append _ _)
  have found : (fixedKinds.find? fun other => accepts other && (fixedText other).isPrefixOf (fixedText kind ++ rest)) =
      some kind := by
    refine List.find?_eq_some_iff_append.mpr ⟨Bool.and_eq_true_iff.mpr ⟨accepted, fits⟩, before, after, order, ?_⟩
    intro other earlier
    have noBlank := fixedText_noBlank other (order ▸ List.mem_append_left _ earlier)
    by_contra found
    simp only [Bool.not_eq_eq_eq_not, Bool.not_true, Bool.not_eq_false, Bool.and_eq_true] at found
    have whole := isPrefixOf_apart noBlank apart found.2
    exact absurd (others other earlier) (by simp [whole])
  rw [fixedLexeme?, found]
  rfl

theorem mem_fixedKinds_word (w : Word) : .word w ∈ fixedKinds := by
  cases w <;> decide

theorem mem_fixedKinds_mark (m : Mark) : .mark m ∈ fixedKinds := by
  cases m <;> decide

end Lexemes

/-- Where a range bound is looked for, nothing else is. -/
theorem Mode.accepts_of_bound {mode : Mode} (bound : mode.accepts .bound) (kind : Kind) (other : kind ≠ .bound) :
    mode.accepts kind = false := by
  by_contra accepted
  rw [Bool.not_eq_false] at accepted
  cases mode <;> first | exact other (beq_iff_eq.mp accepted) | exact absurd bound (by decide)

/-- Digits are found as an integer where integers are looked for, however many they are. -/
theorem lexeme?_digits {mode : Mode} {digits rest : List Char} (accepted : mode.accepts .int)
    (allDigits : IsDigits digits) (apart : IsApart rest) :
    lexeme? mode.accepts (digits ++ rest) = some (.int, digits) := by
  have noBound : mode.accepts .bound = false := by
    by_contra bound
    rw [Mode.accepts_of_bound (by simpa using bound) .int (by decide)] at accepted
    cases accepted
  have int := intLexeme_digits allDigits (apart.stops (by decide))
  have noReal := realLexeme_digits allDigits apart
  obtain ⟨c, later, rfl, digit⟩ := allDigits.first
  have noQuote : c ≠ '"' := by
    rintro rfl
    exact absurd digit (by decide)
  unfold lexeme?
  rw [List.cons_append] at int noReal ⊢
  rw [noReal, nameLexeme_other (isNameStart_of_isDigit digit), stringLexeme_other noQuote, int]
  simp [noBound, accepted]

/-- No other word or mark begins with a minus sign. -/
theorem eq_minus {kind : Kind} {rest : List Char} (member : kind ∈ fixedKinds)
    (begins : (fixedText kind).isPrefixOf ('-' :: rest)) : kind = .mark .minus := by
  have others : ∀ kind ∈ fixedKinds, (fixedText kind).headD '-' = '-' → kind = .mark .minus := by decide
  refine others kind member ?_
  cases text : fixedText kind with
  | nil => rfl
  | cons c later =>
    rw [text] at begins
    exact beq_iff_eq.mp (Bool.and_eq_true_iff.mp begins).1

/-- Where no range bound is looked for, a minus sign is a mark, even before a digit. -/
theorem lexeme?_minus {mode : Mode} (accepted : mode.accepts (.mark .minus)) (rest : List Char) :
    lexeme? mode.accepts ('-' :: rest) = some (.mark .minus, ['-']) := by
  have noBound : mode.accepts .bound = false := by
    by_contra bound
    rw [Mode.accepts_of_bound (by simpa using bound) _ (by decide)] at accepted
    cases accepted
  have mark : fixedLexeme? mode.accepts ('-' :: rest) = some (.mark .minus, ['-']) := by
    unfold fixedLexeme?
    cases found : fixedKinds.find? fun kind => mode.accepts kind && (fixedText kind).isPrefixOf ('-' :: rest) with
    | none =>
      have unfit := List.find?_eq_none.mp found _ (mem_fixedKinds_mark .minus)
      exact absurd (Bool.and_eq_true_iff.mpr ⟨accepted, rfl⟩) unfit
    | some kind =>
      have fits := List.find?_some found
      rw [eq_minus (List.mem_of_find?_eq_some found) (Bool.and_eq_true_iff.mp fits).2]
      rfl
  unfold lexeme?
  rw [realLexeme_other (by decide), nameLexeme_other (by decide), stringLexeme_other (by decide),
    intLexeme_other (by decide), mark]
  simp [noBound]

/-- A word is found as itself where it is looked for, as the whole of a name or as a fixed text. -/
theorem lexeme?_wordText {mode : Mode} {w : Word} {rest : List Char} (accepted : mode.accepts (.word w))
    (apart : IsApart rest) : lexeme? mode.accepts (w.text.toList ++ rest) = some (.word w, w.text.toList) := by
  have identifier : IsIdentifier (String.ofList w.text.toList) := String.ofList_toList.symm ▸ word_isIdentifier w
  have name := nameLexeme_identifier identifier (apart.stops (by decide))
  have fixed := fixedLexeme?_fixed (mem_fixedKinds_word w) accepted apart
  obtain ⟨c, later, same, start, -⟩ := word_isIdentifier w
  have noDigit := isDigit_of_isNameStart start
  have noQuote : c ≠ '"' := by
    rintro rfl
    exact absurd start (by decide)
  have noSign : c ≠ '-' := by
    rintro rfl
    exact absurd start (by decide)
  have kind := nameKind_word accepted
  unfold lexeme?
  simp only [fixedText, same, List.cons_append] at name kind fixed ⊢
  by_cases named : mode.accepts .name
  · rw [realLexeme_other noDigit, name, kind]
    simp [named]
  · rw [realLexeme_other noDigit, stringLexeme_other noQuote, boundLexeme_other noSign, intLexeme_other noDigit, fixed]
    simp [named]

/-- A mark is found as itself where it is looked for: no other kind of text begins as it does. -/
theorem lexeme?_markText {mode : Mode} {m : Mark} {rest : List Char} (accepted : mode.accepts (.mark m))
    (apart : IsApart rest) : lexeme? mode.accepts (m.text.toList ++ rest) = some (.mark m, m.text.toList) := by
  have noBound := boundLexeme_mark m apart
  have fixed := fixedLexeme?_fixed (mem_fixedKinds_mark m) accepted apart
  obtain ⟨c, later, same, noDigit, noStart, noQuote, -⟩ := mark_first m
  unfold lexeme?
  simp only [fixedText, same, List.cons_append] at noBound fixed ⊢
  rw [realLexeme_other noDigit, nameLexeme_other noStart, stringLexeme_other noQuote, noBound,
    intLexeme_other noDigit, fixed]
  simp

/-- Each text of a kind that a mode looks for is found as what it is, if it stands apart from what follows. -/
theorem lexeme?_textOf {mode : Mode} {kind : Kind} {text rest : List Char} (accepted : mode.accepts kind)
    (textOf : IsTextOf kind text) (apart : IsApart rest) : lexeme? mode.accepts (text ++ rest) = some (kind, text) := by
  cases textOf with
  | name identifier free =>
    have name := nameLexeme_identifier identifier (apart.stops (by decide))
    obtain ⟨c, later, same, start, -⟩ := identifier
    rw [String.toList_ofList] at same
    subst same
    unfold lexeme?
    rw [List.cons_append] at name ⊢
    rw [realLexeme_other (isDigit_of_isNameStart start), name]
    simp [accepted, nameKind_name _ free]
  | int allDigits => exact lexeme?_digits accepted allDigits apart
  | real allDigits digitPlaces =>
    unfold lexeme?
    rw [realLexeme_real allDigits digitPlaces apart]
    simp [accepted]
  | string closed =>
    have string : stringLexeme (_ ++ rest) = _ := stringLexeme_string closed
    unfold lexeme?
    rw [List.cons_append, List.cons_append] at string ⊢
    rw [realLexeme_other (by decide), nameLexeme_other (by decide), string]
    simp [accepted]
  | bound allDigits =>
    have only := Mode.accepts_of_bound accepted
    unfold lexeme?
    rw [boundLexeme_digits allDigits apart]
    simp [only .real, only .name, only .string, accepted, allDigits.1]
  | negative allDigits =>
    have only := Mode.accepts_of_bound accepted
    unfold lexeme?
    rw [boundLexeme_negative allDigits apart]
    simp [only .real, only .name, only .string, accepted]
  | word w => exact lexeme?_wordText accepted apart
  | mark m => exact lexeme?_markText accepted apart

theorem splitSign_digits {digits : List Char} (allDigits : IsDigits digits) :
    Integer.splitSign digits = (false, digits) := by
  obtain ⟨c, later, rfl, digit⟩ := allDigits.first
  unfold Integer.splitSign
  split
  next sign =>
    cases sign
    exact absurd digit (by decide)
  next sign =>
    cases sign
    exact absurd digit (by decide)
  next => rfl

theorem not_isSeparator {isMember : Char → Bool} {c : Char} (member : isMember c)
    (others : [' ', '\t', '\x0c', '\r', '\n'].any isMember = false) : Text.isSeparator c = false := by
  by_contra separator
  simp only [Bool.not_eq_false, Text.isSeparator, Bool.or_eq_true, beq_iff_eq] at separator
  have blank : c ∈ [' ', '\t', '\x0c', '\r', '\n'] := by
    rcases separator with (((rfl | rfl) | rfl) | rfl) | rfl <;> simp
  exact List.any_eq_false.mp others c blank member

/-- No text of a token begins with what separates tokens. -/
theorem IsTextOf.first {kind : Kind} {text : List Char} (textOf : IsTextOf kind text) :
    ∃ c later, text = c :: later ∧ Text.isSeparator c = false := by
  cases textOf with
  | name identifier =>
    obtain ⟨c, later, same, start, -⟩ := identifier
    rw [String.toList_ofList] at same
    exact ⟨c, later, same, not_isSeparator start (by decide)⟩
  | int allDigits | bound allDigits =>
    obtain ⟨c, later, rfl, digit⟩ := allDigits.first
    exact ⟨c, later, rfl, not_isSeparator digit (by decide)⟩
  | real allDigits =>
    obtain ⟨c, later, rfl, digit⟩ := allDigits.first
    exact ⟨c, _, rfl, not_isSeparator digit (by decide)⟩
  | string => exact ⟨_, _, rfl, by decide⟩
  | negative => exact ⟨_, _, rfl, by decide⟩
  | word w => cases w <;> exact ⟨_, _, rfl, by decide⟩
  | mark m => cases m <;> exact ⟨_, _, rfl, by decide⟩

/-- A token with such a text has a value, if it is a literal. -/
theorem literalFault?_textOf {token : Token} (textOf : IsTextOf token.kind token.text) : literalFault? token = none := by
  obtain ⟨kind, text, span⟩ := token
  unfold literalFault?
  cases textOf with
  | name | real | word | mark => rfl
  | string closed valid => simpa [stringValue?] using Option.isSome_iff_ne_none.mp valid
  | int allDigits short | bound allDigits short =>
    rw [splitSign_digits allDigits]
    simp [short]
  | negative allDigits short =>
    simp [Integer.splitSign, short]

end PhyLang.Token
