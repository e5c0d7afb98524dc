import PhyLang.Json.Reader
import PhyLang.Json.Writer
import PhyLang.Proofs.Real.Text

namespace PhyLang.Json

open Text (Stops)

theorem hexUnit?_control : ∀ code < 0x20, ∃ a b c d, Text.hexDigits 4 code = [a, b, c, d] ∧
    hexUnit? a b c d = some code := by
  have units : ∀ code < 0x20, Text.hexDigits 4 code = [(Text.hexDigits 4 code)[0]!, (Text.hexDigits 4 code)[1]!,
      (Text.hexDigits 4 code)[2]!, (Text.hexDigits 4 code)[3]!] ∧
      hexUnit? (Text.hexDigits 4 code)[0]! (Text.hexDigits 4 code)[1]! (Text.hexDigits 4 code)[2]!
        (Text.hexDigits 4 code)[3]! = some code := by decide
  exact fun code control => ⟨_, _, _, _, units code control⟩

theorem unitChar_control {c : Char} (control : c.toNat < 0x20) : unitChar c.toNat = c := by
  have below : ¬0x10ffff < c.toNat := by omega
  have whole : ¬(Text.isLeadingHalf c.toNat ∨ Text.isTrailingHalf c.toNat) := by
    simp only [Text.isLeadingHalf, Text.isTrailingHalf, Bool.and_eq_true, decide_eq_true_eq]
    omega
  rw [unitChar, Text.charOfCode?, if_neg below, if_neg whole, Char.ofNat_toNat]
  rfl

theorem readString_letter {mark meant : Char} (short : unescape? mark = some meant) (opening done : List Char)
    (next : Char) (rest : List Char) :
    readString opening done ('\\' :: mark :: next :: rest) = readString opening (meant :: done) (next :: rest) := by
  have other : mark ≠ 'u' := by
    rintro rfl
    cases short
  rw [readString]
  · rw [short]
  · simp [other]
  · simp [other]

theorem readString_control {c : Char} (control : c.toNat < 0x20) (opening done : List Char) (next : Char)
    (rest : List Char) :
    readString opening done ('\\' :: 'u' :: Text.hexDigits 4 c.toNat ++ next :: rest) =
      readString opening (c :: done) (next :: rest) := by
  obtain ⟨a, b, d, e, digits, unit⟩ := hexUnit?_control c.toNat control
  have whole : ¬Text.isLeadingHalf c.toNat := by
    simp only [Text.isLeadingHalf, Bool.and_eq_true, decide_eq_true_eq]
    omega
  simp only [digits, List.cons_append, List.nil_append]
  rw [readString]
  simp only [unit]
  split
  · rw [if_neg (fun pair => whole pair.1), unitChar_control control]
  · rw [unitChar_control control]

/-- The form of one character is read as that character. -/
theorem readString_escapeChar (opening done : List Char) (c next : Char) (rest : List Char) :
    readString opening done (escapeChar c ++ next :: rest) = readString opening (c :: done) (next :: rest) := by
  unfold escapeChar
  split
  case h_8 quote slash _ _ _ _ _ =>
    split
    · rename_i control
      exact readString_control control opening done next rest
    · rename_i plain
      rw [List.singleton_append, readString]
      · rw [if_neg plain]
      all_goals simp_all
  all_goals exact readString_letter rfl opening done next rest

/-- A written text is read as that text. -/
theorem readString_flatMap (opening done text rest : List Char) :
    readString opening done (text.flatMap escapeChar ++ '"' :: rest) =
      .ok (String.ofList (done.reverse ++ text), rest) := by
  induction text generalizing done with
  | nil => simp [readString]
  | cons c text ih =>
    obtain ⟨next, more, start⟩ : ∃ next more, text.flatMap escapeChar ++ '"' :: rest = next :: more :=
      List.exists_cons_of_ne_nil (by simp)
    rw [List.flatMap_cons, List.append_assoc, start, readString_escapeChar, ← start, ih]
    simp

theorem readString_text (opening : List Char) (s : String) (rest : List Char) :
    readString opening [] (s.toList.flatMap escapeChar ++ '"' :: rest) = .ok (s, rest) := by
  rw [readString_flatMap, List.reverse_nil, List.nil_append, String.ofList_toList]

/-- The characters that may continue a number. -/
def continuesNumber (c : Char) : Bool := c.isDigit || c == '.' || c == 'e' || c == 'E'

theorem wholeDigits_run {whole rest : List Char} (digits : ∀ c ∈ whole, c.isDigit)
    (leading : ∃ first more, whole = first :: more ∧ (first = '0' → more = [])) (stops : Stops Char.isDigit rest) :
    wholeDigits (whole ++ rest) = whole := by
  obtain ⟨first, more, shape, lone⟩ := leading
  by_cases zero : first = '0'
  · rw [shape, lone zero, zero]
    rfl
  · rw [shape, List.cons_append, wholeDigits]
    · rw [← List.cons_append, ← shape, Text.takeWhile_run digits stops]
    · intro tail same
      cases same
      exact zero rfl

theorem fractionPart_stops {rest : List Char} (stops : Stops continuesNumber rest) : fractionPart rest = [] := by
  unfold fractionPart
  split
  · exact absurd (stops '.' rfl) (by decide)
  · rfl

theorem exponentPart_stops {rest : List Char} (stops : Stops continuesNumber rest) : exponentPart rest = [] := by
  unfold exponentPart
  split
  · rename_i mark more
    have other := stops mark rfl
    rw [if_neg]
    rintro ⟨rfl | rfl, -⟩
    · exact absurd other (by decide)
    · exact absurd other (by decide)
  · rfl

theorem isDigit_stops {rest : List Char} (stops : Stops continuesNumber rest) : Stops Char.isDigit rest := by
  intro c first
  have other := stops c first
  simp only [continuesNumber, Bool.or_eq_false_iff] at other
  exact other.1.1.1

/-- The sign in front of a number is told apart from its digits. -/
theorem take_sign {first : Char} (digit : first.isDigit) (negative : Bool) (more : List Char) :
    (((if negative then ['-'] else []) ++ first :: more).take 1).filter (· == '-') =
      if negative then ['-'] else [] := by
  cases negative with
  | true => rfl
  | false =>
    have other : first ≠ '-' := by
      rintro rfl
      exact absurd digit (by decide)
    simp [other]

/-- Reading a number after its sign and its whole part. -/
theorem readNumber_whole (negative : Bool) {whole rest : List Char} (digits : ∀ c ∈ whole, c.isDigit)
    (leading : ∃ first more, whole = first :: more ∧ (first = '0' → more = [])) (stops : Stops Char.isDigit rest) :
    readNumber ((if negative then ['-'] else []) ++ (whole ++ rest)) =
      if (fractionPart rest).isEmpty && (exponentPart (rest.drop (fractionPart rest).length)).isEmpty then
        if Integer.digitLimit < whole.length then .error (.tooLong whole.length)
        else .ok (.int (Integer.signed negative (Text.digitsValue 0 whole)), rest)
      else
        .ok (.real ((Real.read? ((if negative then ['-'] else []) ++ whole ++ fractionPart rest ++
            exponentPart (rest.drop (fractionPart rest).length))).getD Real.undefined),
          (rest.drop (fractionPart rest).length).drop (exponentPart (rest.drop (fractionPart rest).length)).length) := by
  have run := wholeDigits_run digits leading stops
  obtain ⟨first, more, shape, -⟩ := leading
  have digit : first.isDigit := digits first (by simp [shape])
  have sign := take_sign digit negative (more ++ rest)
  rw [← List.cons_append, ← shape] at sign
  have filled : whole.isEmpty = false := by simp [shape]
  have minus : (!(if negative then ['-'] else [] : List Char).isEmpty) = negative := by cases negative <;> rfl
  unfold readNumber
  simp only [sign, List.drop_left, run, filled, minus, Bool.false_eq_true, if_false]

/-- A written integer is read as that integer. -/
theorem readNumber_int {n : Int} (writable : Integer.isWritable n) {rest : List Char}
    (stops : Stops continuesNumber rest) : readNumber ((toString n).toList ++ rest) = .ok (.int n, rest) := by
  have short : ¬Integer.digitLimit < (Nat.toDigits 10 n.natAbs).length := by
    have below : n.natAbs < Integer.unwritable := of_decide_eq_true writable
    exact Nat.not_lt.mpr (Integer.length_toDigits_le below)
  have leading : ∃ first more, Nat.toDigits 10 n.natAbs = first :: more ∧ (first = '0' → more = []) := by
    by_cases zero : n.natAbs = 0
    · exact ⟨'0', [], by rw [zero]; rfl, fun _ => rfl⟩
    · obtain ⟨first, more, digits, nonzero⟩ := Integer.toDigits_head_ne_zero (Nat.pos_of_ne_zero zero)
      exact ⟨first, more, digits, fun same => absurd same nonzero⟩
  have sign : (if n < 0 then ['-'] else [] : List Char) = if decide (n < 0) then ['-'] else [] := by simp
  rw [Integer.toList_toString, List.append_assoc, sign,
    readNumber_whole _ (fun _ member => Integer.toDigits_isDigit member) leading (isDigit_stops stops),
    fractionPart_stops stops, List.length_nil, List.drop_zero, exponentPart_stops stops,
    Integer.digitsValue_toDigits, Integer.signed_natAbs]
  simp [short]

theorem fractionPart_spelled {s : Real.Spelling} (valid : s.Valid) {rest : List Char}
    (stops : Stops continuesNumber rest) :
    fractionPart (s.fractionText ++ (s.powerText ++ rest)) = s.fractionText := by
  have afterPlaces : Stops Char.isDigit (s.powerText ++ rest) := by
    unfold Real.Spelling.powerText
    split
    · exact isDigit_stops stops
    · exact Stops.cons rfl _
  unfold Real.Spelling.fractionText
  split
  · unfold Real.Spelling.powerText
    split
    · exact fractionPart_stops stops
    · rfl
  · rename_i filled
    rw [List.cons_append, fractionPart, Text.takeWhile_run valid.places afterPlaces]
    simp [filled]

theorem exponentPart_spelled {s : Real.Spelling} (valid : s.Valid) {rest : List Char}
    (stops : Stops continuesNumber rest) : exponentPart (s.powerText ++ rest) = s.powerText := by
  unfold Real.Spelling.powerText
  split
  · exact exponentPart_stops stops
  · rename_i negative digits power
    obtain ⟨filled, plain⟩ := valid.power _ _ power
    have run := Text.takeWhile_run plain (isDigit_stops stops)
    cases negative <;> simp [exponentPart, run, filled]

/-- A spelled real is read as the real nearest to the decimal that is spelled. -/
theorem readNumber_spelled {s : Real.Spelling} (valid : s.Valid) (negative : Bool) {rest : List Char}
    (stops : Stops continuesNumber rest) :
    readNumber ((if negative then ['-'] else []) ++ s.text ++ rest) =
      .ok (.real (Real.ofDecimal negative s.decimal), rest) := by
  have afterWhole : Stops Char.isDigit (s.fractionText ++ (s.powerText ++ rest)) := by
    unfold Real.Spelling.fractionText Real.Spelling.powerText
    split
    · split
      · exact isDigit_stops stops
      · exact Stops.cons rfl _
    · exact Stops.cons rfl _
  have real : (s.fractionText.isEmpty && s.powerText.isEmpty) = false := by
    unfold Real.Spelling.fractionText Real.Spelling.powerText
    rcases valid.real with places | power
    · simp [places]
    · obtain ⟨exponent, given⟩ := Option.ne_none_iff_exists'.mp power
      simp [given]
  have read := Real.read?_spelled valid negative
  simp only [Real.Spelling.text, List.append_assoc] at read ⊢
  rw [readNumber_whole negative valid.whole valid.leading afterWhole, fractionPart_spelled valid stops,
    List.drop_left, exponentPart_spelled valid stops, List.drop_left, real]
  simp [read]

/-- A number is none of the words that are values. -/
theorem readScalar_number {first : Char} (digit : first.isDigit) (negative : Bool) (more : List Char) :
    readScalar ((if negative then ['-'] else []) ++ first :: more) =
      readNumber ((if negative then ['-'] else []) ++ first :: more) := by
  have other : ∀ {c : Char}, c.isDigit = false → (c == first) = false := by
    intro c letter
    rw [beq_eq_false_iff_ne]
    rintro rfl
    exact absurd digit (by simp [letter])
  have none : wordValues.find? (·.1.isPrefixOf ((if negative then ['-'] else []) ++ first :: more)) = none := by
    have n := other (c := 'n') rfl
    have t := other (c := 't') rfl
    have f := other (c := 'f') rfl
    have capital := other (c := 'N') rfl
    have i := other (c := 'I') rfl
    have minus := other (c := '-') rfl
    cases negative <;> simp [wordValues, List.isPrefixOf, n, t, f, capital, i, minus]
  rw [readScalar, none]

theorem readScalar_int {n : Int} (writable : Integer.isWritable n) {rest : List Char}
    (stops : Stops continuesNumber rest) : readScalar ((toString n).toList ++ rest) = .ok (.int n, rest) := by
  have read := readNumber_int writable stops
  obtain ⟨first, more, digits⟩ := List.exists_cons_of_ne_nil (Nat.toDigits_ne_nil (n := n.natAbs) (b := 10))
  have digit : first.isDigit := Integer.toDigits_isDigit (n := n.natAbs) (by simp [digits])
  have sign : (if n < 0 then ['-'] else [] : List Char) = if decide (n < 0) then ['-'] else [] := by simp
  rw [Integer.toList_toString, sign, digits, List.append_assoc, List.cons_append] at read ⊢
  rw [readScalar_number digit, read]

theorem readScalar_real (x : Float) {rest : List Char} (stops : Stops continuesNumber rest) :
    readScalar (writeReal x ++ rest) = .ok (.real x, rest) := by
  have undefined : readScalar ("NaN".toList ++ rest) = .ok (.real Real.undefined, rest) := rfl
  have above : readScalar ("Infinity".toList ++ rest) =
      .ok (.real (Real.ofBits false Real.infinityBits), rest) := rfl
  have below : readScalar ("-Infinity".toList ++ rest) =
      .ok (.real (Real.ofBits true Real.infinityBits), rest) := rfl
  unfold writeReal
  -- Only the finite reals are written with digits.
  rcases Real.magnitude_cases x with ⟨kind, same⟩ | ⟨kind, same⟩ | ⟨kind, same⟩ | ⟨⟨count, kind⟩, finite⟩
  · rw [kind, same]
    exact undefined
  · rw [kind, same]
    exact above
  · rw [kind, same]
    exact below
  · obtain ⟨s, valid, spelled, value⟩ := Real.text_spelled finite
    have read := readNumber_spelled valid (decide (Real.signBit ≤ x.toBits.toNat)) stops
    obtain ⟨first, more, text, digit⟩ := valid.text_cons
    rw [kind]
    simp only
    rw [value] at read
    rw [spelled]
    rw [text, List.append_assoc, List.cons_append] at read ⊢
    rw [readScalar_number digit, read]

mutual

/-- Whether a value can be written and read back: its integers have few enough digits, and the fields
of its objects have different names. -/
def Writable : Json → Prop
  | .int n => Integer.isWritable n
  | .arr items => ItemsWritable items
  | .obj fields => (fields.map (·.1)).Nodup ∧ FieldsWritable fields
  | .null | .bool _ | .real _ | .str _ => True

def ItemsWritable : List Json → Prop
  | [] => True
  | item :: rest => Writable item ∧ ItemsWritable rest

def FieldsWritable : List (String × Json) → Prop
  | [] => True
  | (_, value) :: rest => Writable value ∧ FieldsWritable rest

end

theorem setField_new {name : String} {fields : List (String × Json)} (absent : name ∉ fields.map (·.1))
    (value : Json) : setField name value fields = fields ++ [(name, value)] := by
  induction fields with
  | nil => rfl
  | cons field fields ih =>
    obtain ⟨other, old⟩ := field
    simp only [List.map_cons, List.mem_cons, not_or] at absent
    rw [setField, if_neg (by simpa using Ne.symm absent.1), ih absent.2]
    rfl

/-- Whether what comes between the parts of a document is blank. -/
def IsBlank (gap : Nat → List Char) : Prop := ∀ depth, ∀ c ∈ gap depth, isGap c

theorem continuesNumber_gap {c : Char} (blank : isGap c) : continuesNumber c = false := by
  simp only [isGap, Bool.or_eq_true, beq_iff_eq] at blank
  rcases blank with ((rfl | rfl) | rfl) | rfl <;> rfl

/-- After a gap a number does not go on. -/
theorem stops_gap {blanks : List Char} (blank : ∀ c ∈ blanks, isGap c) {rest : List Char}
    (stops : Stops continuesNumber rest) : Stops continuesNumber (blanks ++ rest) := by
  cases blanks with
  | nil => exact stops
  | cons c blanks => exact Stops.cons (continuesNumber_gap (blank c (List.mem_cons_self ..))) _

theorem skipGap_run {blanks : List Char} (blank : ∀ c ∈ blanks, isGap c) {rest : List Char}
    (stops : Stops isGap rest) : skipGap (blanks ++ rest) = rest := Text.dropWhile_run blank stops

/-- The characters at the start of a value that is neither a text nor a list nor an object. -/
def startsScalar (c : Char) : Bool := c.isAlphanum || c == '-'

/-- The characters at the start of a value. -/
def startsValue (c : Char) : Bool := startsScalar c || c == '"' || c == '[' || c == '\x7b'

theorem startsScalar_isDigit {c : Char} (digit : c.isDigit) : startsScalar c := by
  simp [startsScalar, Char.isAlphanum, digit]

theorem isGap_startsValue {c : Char} (start : startsValue c) : isGap c = false := by
  by_contra blank
  simp only [isGap, Bool.not_eq_false, Bool.or_eq_true, beq_iff_eq] at blank
  rcases blank with ((rfl | rfl) | rfl) | rfl <;> exact absurd start (by decide)

theorem signed_cons {first : Char} (digit : first.isDigit) (negative : Bool) (more : List Char) :
    ∃ c rest, (if negative then ['-'] else []) ++ first :: more = c :: rest ∧ startsScalar c := by
  cases negative with
  | true => exact ⟨'-', first :: more, rfl, rfl⟩
  | false => exact ⟨first, more, rfl, startsScalar_isDigit digit⟩

theorem toString_cons (n : Int) : ∃ c rest, (toString n).toList = c :: rest ∧ startsScalar c := by
  obtain ⟨first, more, digits⟩ := List.exists_cons_of_ne_nil (Nat.toDigits_ne_nil (n := n.natAbs) (b := 10))
  have digit : first.isDigit := Integer.toDigits_isDigit (n := n.natAbs) (by simp [digits])
  have start := signed_cons digit (decide (n < 0)) more
  rw [Integer.toList_toString, digits]
  simpa using start

theorem writeReal_cons (x : Float) : ∃ c rest, writeReal x = c :: rest ∧ startsScalar c := by
  unfold writeReal
  rcases Real.magnitude_cases x with ⟨kind, -⟩ | ⟨kind, -⟩ | ⟨kind, -⟩ | ⟨⟨count, kind⟩, finite⟩
  · exact ⟨'N', ['a', 'N'], by rw [kind]; rfl, rfl⟩
  · exact ⟨'I', "nfinity".toList, by rw [kind]; rfl, rfl⟩
  · exact ⟨'-', "Infinity".toList, by rw [kind]; rfl, rfl⟩
  · obtain ⟨s, valid, spelled, -⟩ := Real.text_spelled finite
    obtain ⟨first, more, text, digit⟩ := valid.text_cons
    rw [kind]
    simp only
    rw [spelled, text]
    exact signed_cons digit _ more

theorem readValue_scalar {c : Char} (start : startsScalar c) (fuel : Nat) (rest : List Char) :
    readValue fuel (c :: rest) = readScalar (c :: rest) := by
  have other : ∀ d, startsScalar d = false → c ≠ d := by
    rintro d delimiter rfl
    exact absurd start (by simp [delimiter])
  rw [readValue]
  · rintro - tail - same
    exact other _ rfl (List.cons.inj same).1
  · rintro - tail - same
    exact other _ rfl (List.cons.inj same).1
  · rintro - tail - same
    exact other _ rfl (List.cons.inj same).1

theorem write_cons (gap : Nat → List Char) (depth : Nat) (value : Json) :
    ∃ c rest, value.write gap depth = c :: rest ∧ startsValue c := by
  have scalar : ∀ {word : List Char}, (∃ c rest, word = c :: rest ∧ startsScalar c) →
      ∃ c rest, word = c :: rest ∧ startsValue c := by
    rintro word ⟨c, rest, shape, start⟩
    exact ⟨c, rest, shape, by simp [startsValue, start]⟩
  cases value with
  | null => exact ⟨'n', "ull".toList, rfl, rfl⟩
  | bool b =>
    cases b with
    | true => exact ⟨'t', "rue".toList, rfl, rfl⟩
    | false => exact ⟨'f', "alse".toList, rfl, rfl⟩
  | int n => exact scalar (by simpa only [write] using toString_cons n)
  | real x => exact scalar (by simpa only [write] using writeReal_cons x)
  | str s => exact ⟨'"', _, rfl, rfl⟩
  | arr items => cases items <;> exact ⟨'[', _, rfl, rfl⟩
  | obj fields => cases fields <;> exact ⟨'\x7b', _, rfl, rfl⟩

/-- Whether a value is read back wherever it is written at a depth, provided that it is not followed
by what would continue a number. -/
def ReadsBack (gap : Nat → List Char) (depth : Nat) (value : Json) : Prop :=
  ∀ fuel rest, (value.write gap depth).length ≤ fuel → Stops continuesNumber rest →
    readValue fuel (value.write gap depth ++ rest) = .ok (value, rest)

theorem stops_writeItems {gap : Nat → List Char} (blank : IsBlank gap) (depth : Nat) (items : List Json)
    (rest : List Char) : Stops continuesNumber (writeItems gap depth items ++ rest) := by
  cases items with
  | nil =>
    rw [writeItems, List.append_assoc]
    exact stops_gap (blank depth) (Stops.cons rfl _)
  | cons item items => exact Stops.cons rfl _

theorem stops_writeFields {gap : Nat → List Char} (blank : IsBlank gap) (depth : Nat)
    (fields : List (String × Json)) (rest : List Char) :
    Stops continuesNumber (writeFields gap depth fields ++ rest) := by
  cases fields with
  | nil =>
    rw [writeFields, List.append_assoc]
    exact stops_gap (blank depth) (Stops.cons rfl _)
  | cons field fields => exact Stops.cons rfl _

theorem stops_write (gap : Nat → List Char) (depth : Nat) (value : Json) (rest : List Char) :
    Stops isGap (value.write gap depth ++ rest) := by
  obtain ⟨c, more, shape, start⟩ := write_cons gap depth value
  rw [shape]
  exact Stops.cons (isGap_startsValue start) _

theorem stops_writeString (name : String) (rest : List Char) : Stops isGap (writeString name ++ rest) :=
  Stops.cons rfl _

/-- The items of a list are read back one after the other. -/
theorem readItems_write {gap : Nat → List Char} (blank : IsBlank gap) (depth : Nat) {item : Json}
    {items : List Json} (reads : ∀ value ∈ item :: items, ReadsBack gap (depth + 1) value) {fuel : Nat}
    (enough : (item.write gap (depth + 1)).length + (writeItems gap depth items).length ≤ fuel) (rest : List Char) :
    readItems fuel (item.write gap (depth + 1) ++ (writeItems gap depth items ++ rest)) =
      .ok (item :: items, rest) := by
  induction items generalizing item fuel with
  | nil =>
    have first := reads item (List.mem_cons_self ..)
    have length : (writeItems gap depth []).length = (gap depth).length + 1 := by simp [writeItems]
    obtain ⟨fuel, rfl⟩ : ∃ less, fuel = less + 1 := ⟨fuel - 1, by omega⟩
    rw [readItems, first fuel _ (by omega) (stops_writeItems blank depth [] rest), writeItems, List.append_assoc,
      List.singleton_append]
    simp only [bind, Except.bind]
    rw [skipGap_run (blank depth) (Stops.cons rfl rest)]
    rfl
  | cons next items ih =>
    have first := reads item (List.mem_cons_self ..)
    have length : (writeItems gap depth (next :: items)).length = (gap (depth + 1)).length +
        (next.write gap (depth + 1)).length + (writeItems gap depth items).length + 1 := by
      simp [writeItems]
      omega
    obtain ⟨fuel, rfl⟩ : ∃ less, fuel = less + 1 := ⟨fuel - 1, by omega⟩
    have later := @ih next (fun value member => reads value (List.mem_cons_of_mem _ member)) fuel (by omega)
    rw [readItems, first fuel _ (by omega) (stops_writeItems blank depth _ rest), writeItems]
    simp only [List.cons_append, List.append_assoc, bind, Except.bind]
    rw [skipGap, List.dropWhile_cons_of_neg (by decide)]
    simp only
    rw [skipGap_run (blank (depth + 1)) (stops_write gap (depth + 1) next _), later]
    rfl

/-- A field is read as its name and its value, before which the blank after the colon is passed over. -/
theorem readFields_field {gap : Nat → List Char} {depth fuel : Nat} {name : String} {value : Json}
    (reads : ReadsBack gap depth value) (enough : (value.write gap depth).length ≤ fuel)
    {done : List (String × Json)} (absent : name ∉ done.map (·.1)) {rest : List Char}
    (stops : Stops continuesNumber rest) :
    readFields (fuel + 1) done (writeString name ++ ':' :: ' ' :: (value.write gap depth ++ rest)) =
      match skipGap rest with
      | '\x7d' :: left => .ok (done ++ [(name, value)], left)
      | ',' :: left => readFields fuel (done ++ [(name, value)]) (skipGap left)
      | left => .error (.malformed .expectedComma left) := by
  have text := readString_text ('"' :: (name.toList.flatMap escapeChar ++ '"' :: ':' :: ' ' ::
    (value.write gap depth ++ rest))) name (':' :: ' ' :: (value.write gap depth ++ rest))
  have colon : skipGap (':' :: ' ' :: (value.write gap depth ++ rest)) =
      ':' :: ' ' :: (value.write gap depth ++ rest) := by
    rw [skipGap, List.dropWhile_cons_of_neg (by decide)]
  have space : skipGap (' ' :: (value.write gap depth ++ rest)) = value.write gap depth ++ rest :=
    @skipGap_run [' '] (List.forall_mem_singleton.mpr rfl) _ (stops_write gap depth value rest)
  simp only [writeString, List.cons_append, List.append_assoc, List.nil_append]
  rw [readFields, text]
  simp only [bind, Except.bind]
  rw [colon]
  simp only
  rw [space, reads fuel rest enough stops]
  simp only [setField_new absent]
  rfl

theorem name_absent {done fields : List (String × Json)} {field : String × Json}
    (distinct : ((done ++ field :: fields).map (·.1)).Nodup) : field.1 ∉ done.map (·.1) := by
  rw [List.map_append, List.nodup_append] at distinct
  exact fun member => distinct.2.2 _ member _ (List.mem_cons_self ..) rfl

/-- The fields of an object are read back one after the other, behind the fields before them. -/
theorem readFields_write {gap : Nat → List Char} (blank : IsBlank gap) (depth : Nat) {field : String × Json}
    {fields : List (String × Json)} (reads : ∀ f ∈ field :: fields, ReadsBack gap (depth + 1) f.2)
    {done : List (String × Json)} (distinct : ((done ++ field :: fields).map (·.1)).Nodup) {fuel : Nat}
    (enough : (field.2.write gap (depth + 1)).length + (writeFields gap depth fields).length ≤ fuel)
    (rest : List Char) :
    readFields fuel done (writeString field.1 ++ ':' :: ' ' :: (field.2.write gap (depth + 1) ++
      (writeFields gap depth fields ++ rest))) = .ok (done ++ field :: fields, rest) := by
  -- The fields before these are in `done`, and the name of the next one is new among them.
  induction fields generalizing field done fuel with
  | nil =>
    have length : (writeFields gap depth []).length = (gap depth).length + 1 := by simp [writeFields]
    obtain ⟨fuel, rfl⟩ : ∃ less, fuel = less + 1 := ⟨fuel - 1, by omega⟩
    rw [readFields_field (reads field (List.mem_cons_self ..)) (by omega) (name_absent distinct)
      (stops_writeFields blank depth [] rest), writeFields, List.append_assoc, List.singleton_append,
      skipGap_run (blank depth) (Stops.cons rfl rest)]
    rfl
  | cons next fields ih =>
    obtain ⟨name, value⟩ := next
    have length : (writeFields gap depth ((name, value) :: fields)).length = (gap (depth + 1)).length +
        (writeString name).length + (value.write gap (depth + 1)).length + (writeFields gap depth fields).length + 3 := by
      simp [writeFields]
      omega
    obtain ⟨fuel, rfl⟩ : ∃ less, fuel = less + 1 := ⟨fuel - 1, by omega⟩
    have later := @ih (name, value) (fun f member => reads f (List.mem_cons_of_mem _ member)) (done ++ [field])
      (by simpa using distinct) fuel (by simp only; omega)
    have text : writeFields gap depth ((name, value) :: fields) ++ rest = ',' :: (gap (depth + 1) ++
        (writeString name ++ ':' :: ' ' :: (value.write gap (depth + 1) ++ (writeFields gap depth fields ++ rest)))) := by
      simp [writeFields]
    rw [readFields_field (reads field (List.mem_cons_self ..)) (by omega) (name_absent distinct)
      (stops_writeFields blank depth _ rest), text, skipGap, List.dropWhile_cons_of_neg (by decide)]
    simp only
    rw [skipGap_run (blank (depth + 1)) (stops_writeString name _), later, List.append_assoc]
    rfl

/-- A list is read back if its items are. -/
theorem readsBack_arr {gap : Nat → List Char} (blank : IsBlank gap) {depth : Nat} {items : List Json}
    (reads : ∀ item ∈ items, ReadsBack gap (depth + 1) item) : ReadsBack gap depth (.arr items) := by
  intro fuel rest enough _
  cases items with
  | nil =>
    obtain ⟨fuel, rfl⟩ : ∃ less, fuel = less + 1 := ⟨fuel - 1, by simp [write] at enough; omega⟩
    rfl
  | cons item items =>
    have length : ((Json.arr (item :: items)).write gap depth).length = (gap (depth + 1)).length +
        (item.write gap (depth + 1)).length + (writeItems gap depth items).length + 1 := by
      simp [write]
      omega
    obtain ⟨fuel, rfl⟩ : ∃ less, fuel = less + 1 := ⟨fuel - 1, by omega⟩
    have read := @readItems_write gap blank depth item items reads fuel (by omega) rest
    obtain ⟨c, more, shape, start⟩ := write_cons gap (depth + 1) item
    simp only [write, List.cons_append, List.append_assoc]
    rw [readValue, skipGap_run (blank (depth + 1)) (stops_write gap (depth + 1) item _)]
    rw [shape, List.cons_append] at read ⊢
    -- No value starts with the bracket that would close the list.
    split
    · rename_i close
      cases close
      exact absurd start (by decide)
    · rw [read]
      rfl

/-- An object with distinct names is read back if its values are. -/
theorem readsBack_obj {gap : Nat → List Char} (blank : IsBlank gap) {depth : Nat} {fields : List (String × Json)}
    (distinct : (fields.map (·.1)).Nodup) (reads : ∀ field ∈ fields, ReadsBack gap (depth + 1) field.2) :
    ReadsBack gap depth (.obj fields) := by
  intro fuel rest enough _
  cases fields with
  | nil =>
    obtain ⟨fuel, rfl⟩ : ∃ less, fuel = less + 1 := ⟨fuel - 1, by simp [write] at enough; omega⟩
    rfl
  | cons field fields =>
    obtain ⟨name, value⟩ := field
    have length : ((Json.obj ((name, value) :: fields)).write gap depth).length = (gap (depth + 1)).length +
        (writeString name).length + (value.write gap (depth + 1)).length + (writeFields gap depth fields).length +
        3 := by
      simp [write]
      omega
    obtain ⟨fuel, rfl⟩ : ∃ less, fuel = less + 1 := ⟨fuel - 1, by omega⟩
    have read :=
      @readFields_write gap blank depth (name, value) fields reads [] distinct fuel (by simp only; omega) rest
    simp only [write, List.cons_append, List.append_assoc]
    rw [readValue, skipGap_run (blank (depth + 1)) (stops_writeString name _)]
    split
    · rename_i close
      exact absurd (List.cons.inj close).1 (by decide)
    · rw [read]
      rfl

/-- A text is read back. -/
theorem readsBack_str {gap : Nat → List Char} {depth : Nat} (s : String) : ReadsBack gap depth (.str s) := by
  intro fuel rest enough _
  obtain ⟨fuel, rfl⟩ : ∃ less, fuel = less + 1 := ⟨fuel - 1, by simp [write, writeString] at enough; omega⟩
  simp only [write, writeString, List.cons_append, List.append_assoc, List.nil_append]
  rw [readValue, readString_text]
  rfl

mutual

/-- A writable value is read back at every depth. -/
theorem readsBack {gap : Nat → List Char} (blank : IsBlank gap) :
    (value : Json) → Writable value → ∀ depth, ReadsBack gap depth value
  | .null, _, _ => fun _ rest _ _ => readValue_scalar (c := 'n') rfl _ _
  | .bool true, _, _ => fun _ rest _ _ => readValue_scalar (c := 't') rfl _ _
  | .bool false, _, _ => fun _ rest _ _ => readValue_scalar (c := 'f') rfl _ _
  | .int n, writable, depth => by
    intro fuel rest _ stops
    obtain ⟨c, more, start, scalar⟩ := toString_cons n
    have read := readScalar_int writable stops
    rw [write]
    rw [start, List.cons_append] at read ⊢
    rw [readValue_scalar scalar, read]
  | .real x, _, depth => by
    intro fuel rest _ stops
    obtain ⟨c, more, start, scalar⟩ := writeReal_cons x
    have read := readScalar_real x stops
    rw [write]
    rw [start, List.cons_append] at read ⊢
    rw [readValue_scalar scalar, read]
  | .str s, _, _ => readsBack_str s
  | .arr items, writable, depth => readsBack_arr blank (itemsReadBack blank items writable (depth + 1))
  | .obj fields, ⟨distinct, writable⟩, depth =>
    readsBack_obj blank distinct (fieldsReadBack blank fields writable (depth + 1))

theorem itemsReadBack {gap : Nat → List Char} (blank : IsBlank gap) :
    (items : List Json) → ItemsWritable items → ∀ depth, ∀ item ∈ items, ReadsBack gap depth item
  | [], _, _ => fun _ member => absurd member List.not_mem_nil
  | item :: items, ⟨first, later⟩, depth => by
    intro other member
    rcases List.mem_cons.mp member with same | inside
    · rw [same]
      exact readsBack blank item first depth
    · exact itemsReadBack blank items later depth other inside

theorem fieldsReadBack {gap : Nat → List Char} (blank : IsBlank gap) :
    (fields : List (String × Json)) → FieldsWritable fields → ∀ depth, ∀ field ∈ fields, ReadsBack gap depth field.2
  | [], _, _ => fun _ member => absurd member List.not_mem_nil
  | (name, value) :: fields, ⟨first, later⟩, depth => by
    intro other member
    rcases List.mem_cons.mp member with same | inside
    · rw [same]
      exact readsBack blank value first depth
    · exact fieldsReadBack blank fields later depth other inside

end

theorem indentation_blank : IsBlank indentation := by
  intro depth c member
  rcases List.mem_cons.mp member with rfl | space
  · rfl
  · rw [(List.mem_replicate.mp space).2]
    rfl

/-- A written document is read back. -/
theorem readDocument_write {gap : Nat → List Char} (blank : IsBlank gap) {value : Json} (writable : Writable value) :
    readDocument (value.write gap 0) = .ok value := by
  have read := readsBack blank value writable 0 (2 * (value.write gap 0).length + 2) [] (by omega) (Stops.nil _)
  have start := stops_write gap 0 value []
  rw [List.append_nil] at read start
  have skipped : skipGap (value.write gap 0) = value.write gap 0 := @skipGap_run [] (by simp) _ start
  obtain ⟨c, more, shape, first⟩ := write_cons gap 0 value
  unfold readDocument
  split
  · rename_i mark
    rw [shape] at mark
    cases mark
    exact absurd first (by decide)
  · rw [skipped, read]
    rfl

theorem escapeChar_plain (c : Char) : '\r' ∉ escapeChar c := by
  unfold escapeChar
  split
  case h_8 other _ _ _ =>
    split
    · rename_i control
      have plain : ∀ code < 0x20, '\r' ∉ '\\' :: 'u' :: Text.hexDigits 4 code := by decide
      exact plain _ control
    · simpa using Ne.symm other
  all_goals decide

theorem writeString_plain (s : String) : '\r' ∉ writeString s := by
  simp [writeString, escapeChar_plain]

theorem toString_plain (n : Int) : '\r' ∉ (toString n).toList := by
  rw [Integer.toList_toString]
  intro member
  rcases List.mem_append.mp member with sign | digit
  · split at sign
    · simp at sign
    · simp at sign
  · exact absurd (Integer.toDigits_isDigit digit) (by decide)

theorem writeReal_plain (x : Float) : '\r' ∉ writeReal x := by
  unfold writeReal
  rcases Real.magnitude_cases x with ⟨kind, -⟩ | ⟨kind, -⟩ | ⟨kind, -⟩ | ⟨⟨count, kind⟩, finite⟩
  · simp [kind]
  · simp [kind]
  · simp [kind]
  · obtain ⟨s, valid, spelled, -⟩ := Real.text_spelled finite
    rw [kind]
    simp only
    rw [spelled]
    intro member
    rcases List.mem_append.mp member with sign | inside
    · split at sign
      · simp at sign
      · simp at sign
    · exact absurd (valid.isPart _ inside) (by decide)

mutual

/-- Written values hold no carriage returns, apart from those of the gaps. -/
theorem write_plain {gap : Nat → List Char} (plain : ∀ depth, '\r' ∉ gap depth) :
    (value : Json) → ∀ depth, '\r' ∉ value.write gap depth
  | .null, _ => by
    rw [write]
    decide
  | .bool true, _ => by
    rw [write]
    decide
  | .bool false, _ => by
    rw [write]
    decide
  | .int n, _ => toString_plain n
  | .real x, _ => writeReal_plain x
  | .str s, _ => writeString_plain s
  | .arr [], _ => by
    rw [write]
    decide
  | .arr (item :: items), depth => by
    have first := write_plain plain item (depth + 1)
    have later := writeItems_plain plain items depth
    simp [write, plain, first, later]
  | .obj [], _ => by
    rw [write]
    decide
  | .obj ((name, value) :: fields), depth => by
    have first := write_plain plain value (depth + 1)
    have later := writeFields_plain plain fields depth
    simp [write, plain, writeString_plain, first, later]

theorem writeItems_plain {gap : Nat → List Char} (plain : ∀ depth, '\r' ∉ gap depth) :
    (items : List Json) → ∀ depth, '\r' ∉ writeItems gap depth items
  | [], depth => by simp [writeItems, plain]
  | item :: items, depth => by
    have first := write_plain plain item (depth + 1)
    have later := writeItems_plain plain items depth
    simp [writeItems, plain, first, later]

theorem writeFields_plain {gap : Nat → List Char} (plain : ∀ depth, '\r' ∉ gap depth) :
    (fields : List (String × Json)) → ∀ depth, '\r' ∉ writeFields gap depth fields
  | [], depth => by simp [writeFields, plain]
  | (name, value) :: fields, depth => by
    have first := write_plain plain value (depth + 1)
    have later := writeFields_plain plain fields depth
    simp [writeFields, plain, writeString_plain, first, later]

end

theorem indentation_plain (depth : Nat) : '\r' ∉ indentation depth := by simp [indentation]

end PhyLang.Json
