import PhyLang.Proofs.Integer.Digits
import PhyLang.Proofs.Real.Bits
import PhyLang.Proofs.Real.Nearest
import PhyLang.Real.Reading
import PhyLang.Real.Text

namespace PhyLang.Real

/-- The parts of the text of a decimal: the digits before the point, those after it, and the exponent
with its sign. -/
structure Spelling where
  whole : List Char
  places : List Char
  power : Option (Bool × List Char)

namespace Spelling

/-- The point and the digits after it. -/
def fractionText (s : Spelling) : List Char := if s.places = [] then [] else '.' :: s.places

/-- The exponent behind its mark. -/
def powerText (s : Spelling) : List Char :=
  match s.power with
  | none => []
  | some (negative, digits) => 'e' :: (if negative then '-' else '+') :: digits

def text (s : Spelling) : List Char := s.whole ++ s.fractionText ++ s.powerText

def powerValue (s : Spelling) : Int :=
  match s.power with
  | none => 0
  | some (negative, digits) => Integer.signed negative (Text.digitsValue 0 digits)

/-- The decimal that is spelled. -/
def decimal (s : Spelling) : Decimal :=
  ⟨Text.digitsValue 0 (s.whole ++ s.places), -s.places.length + s.powerValue⟩

/-- The whole part is a number without leading zeros, and at least one of the other parts is there. -/
structure Valid (s : Spelling) : Prop where
  whole : ∀ c ∈ s.whole, c.isDigit
  places : ∀ c ∈ s.places, c.isDigit
  power : ∀ negative digits, s.power = some (negative, digits) → digits ≠ [] ∧ ∀ c ∈ digits, c.isDigit
  leading : ∃ first rest, s.whole = first :: rest ∧ (first = '0' → rest = [])
  real : s.places ≠ [] ∨ s.power ≠ none

end Spelling

theorem digitsValue_zeros (count : Nat) (word : List Char) :
    Text.digitsValue 0 (List.replicate count '0' ++ word) = Text.digitsValue 0 word := by
  induction count with
  | zero => rfl
  | succ count ih => exact ih

theorem digitsValue_append_zeros {word : List Char} (digits : ∀ c ∈ word, c.isDigit) (count : Nat) :
    Text.digitsValue 0 (word ++ List.replicate count '0') = Text.digitsValue 0 word * 10 ^ count := by
  have all : ∀ c ∈ word ++ List.replicate count '0', c.isDigit := by
    intro c member
    rcases List.mem_append.mp member with inside | zero
    · exact digits c inside
    · rw [(List.mem_replicate.mp zero).2]
      rfl
  rw [Text.digitsValue_eq_ofDigitChars all, Text.digitsValue_eq_ofDigitChars digits, Nat.ofDigitChars_append]
  clear all
  generalize Nat.ofDigitChars 10 word 0 = start
  induction count generalizing start with
  | zero => simp
  | succ count ih =>
    rw [List.replicate_succ, Nat.ofDigitChars_cons, ih, Nat.sub_self, Nat.add_zero, pow_succ]
    ring

theorem isDigit_zeros {c : Char} {count : Nat} (member : c ∈ List.replicate count '0') : c.isDigit := by
  rw [(List.mem_replicate.mp member).2]
  rfl

theorem isDigit_filled {digits : List Char} (all : ∀ c ∈ digits, c.isDigit) {count : Nat} {c : Char}
    (member : c ∈ List.replicate count '0' ++ digits) : c.isDigit :=
  (List.mem_append.mp member).elim isDigit_zeros (all c)

/-- Zeros in front of the digits of a number do not change it. -/
theorem digitsValue_filled (count n : Nat) :
    Text.digitsValue 0 (List.replicate count '0' ++ Nat.toDigits 10 n) = n := by
  rw [digitsValue_zeros, Integer.digitsValue_toDigits]

/-- Whole digits in place are followed by a point and a zero. -/
theorem placedText_whole {digits : List Char} (all : ∀ c ∈ digits, c.isDigit)
    (leading : ∃ first rest, digits = first :: rest ∧ first ≠ '0') {exponent : Int} (whole : 0 ≤ exponent) :
    ∃ s : Spelling, s.Valid ∧ (placedText digits exponent).toList = s.text ∧
      s.decimal.value = (Decimal.mk (Text.digitsValue 0 digits) exponent).value := by
  obtain ⟨first, others, shape, nonzero⟩ := leading
  refine ⟨⟨digits ++ List.replicate exponent.toNat '0', ['0'], none⟩, ?_, ?_, ?_⟩
  · refine ⟨?_, ?_, by simp, ⟨first, others ++ List.replicate exponent.toNat '0', ?_, ?_⟩, by simp⟩
    · intro c member
      exact (List.mem_append.mp member).elim (all c) isDigit_zeros
    · intro c member
      exact @isDigit_zeros c 1 member
    · rw [shape, List.cons_append]
    · intro same
      exact absurd same nonzero
  · have tail : (-exponent).toNat = 0 := by omega
    have filled : 0 + 1 - digits.length = 0 := by simp [shape]
    simp only [placedText, tail, filled, List.replicate_zero, List.nil_append, Nat.sub_zero, List.take_length,
      List.drop_length, Spelling.text, Spelling.fractionText, Spelling.powerText]
    simp
  · have last : Text.digitsValue 0 (digits ++ List.replicate exponent.toNat '0' ++ ['0']) =
        Text.digitsValue 0 digits * 10 ^ (exponent.toNat + 1) := by
      rw [← digitsValue_append_zeros all, List.append_assoc, List.replicate_succ']
    have power : (10 : ℚ) ^ exponent = (10 : ℚ) ^ exponent.toNat := by
      rw [← zpow_natCast, Int.toNat_of_nonneg whole]
    simp only [Spelling.decimal, Spelling.powerValue, last, Decimal.value, power]
    push_cast
    norm_num
    ring

/-- Digits with places after the point are filled up by zeros in front. -/
theorem placedText_places {digits : List Char} (all : ∀ c ∈ digits, c.isDigit)
    (leading : ∃ first rest, digits = first :: rest ∧ first ≠ '0') {count : Nat} (positive : 0 < count) :
    ∃ s : Spelling, s.Valid ∧ (placedText digits (-count)).toList = s.text ∧
      s.decimal.value = (Decimal.mk (Text.digitsValue 0 digits) (-count)).value := by
  obtain ⟨first, others, shape, nonzero⟩ := leading
  have tail : (- -(count : Int)).toNat = count := by omega
  have padding : (-(count : Int)).toNat = 0 := by omega
  obtain ⟨padded, filled⟩ : ∃ padded, padded = List.replicate (count + 1 - digits.length) '0' ++ digits := ⟨_, rfl⟩
  have length : padded.length = count + 1 - digits.length + digits.length := by simp [filled]
  have member : ∀ c ∈ padded, c.isDigit := by
    intro c inside
    rw [filled] at inside
    exact isDigit_filled all inside
  have part : (padded.drop (padded.length - count)).length = count := by rw [List.length_drop]; omega
  have kept : padded.drop (padded.length - count) ≠ [] := List.ne_nil_of_length_pos (by omega)
  have start : ∃ c rest, padded.take (padded.length - count) = c :: rest ∧ (c = '0' → rest = []) := by
    -- With fewer digits than places the number starts with a single zero before the point.
    by_cases short : digits.length ≤ count
    · obtain ⟨zeros, cut⟩ : ∃ zeros, count + 1 - digits.length = zeros + 1 := ⟨count - digits.length, by omega⟩
      refine ⟨'0', [], ?_, fun _ => rfl⟩
      rw [show padded.length - count = 1 by omega, filled, cut]
      rfl
    · obtain ⟨more, cut⟩ : ∃ more, padded.length - count = more + 1 := ⟨padded.length - count - 1, by omega⟩
      refine ⟨first, others.take more, ?_, fun same => absurd same nonzero⟩
      rw [cut, filled, show count + 1 - digits.length = 0 by omega, shape]
      rfl
  refine ⟨⟨padded.take (padded.length - count), padded.drop (padded.length - count), none⟩, ?_, ?_, ?_⟩
  · exact ⟨fun c inside => member c (List.mem_of_mem_take inside),
      fun c inside => member c (List.mem_of_mem_drop inside), by simp, start, Or.inl kept⟩
  · have some : (padded.drop (padded.length - count)).isEmpty = false := by simpa using kept
    simp only [placedText, tail, padding, List.replicate_zero, List.append_nil, ← filled, some, Spelling.text,
      Spelling.fractionText, Spelling.powerText, if_neg kept]
    simp
  · simp only [Spelling.decimal, Spelling.powerValue, List.take_append_drop, part, Int.add_zero]
    rw [filled, digitsValue_zeros]

/-- Digits with an exponent spell the decimal whose first digit stands at that power of ten. -/
theorem scaledText_spelled {digits : List Char} (all : ∀ c ∈ digits, c.isDigit)
    (leading : ∃ first rest, digits = first :: rest ∧ first ≠ '0') (place : Int) :
    ∃ s : Spelling, s.Valid ∧ (scaledText digits place).toList = s.text ∧
      s.decimal.value = (Decimal.mk (Text.digitsValue 0 digits) (place + 1 - digits.length)).value := by
  obtain ⟨first, others, shape, nonzero⟩ := leading
  have size : (toString place.natAbs).toList = Nat.toDigits 10 place.natAbs := Nat.toList_repr
  obtain ⟨count, zeros⟩ : ∃ count, List.replicate count '0' =
      (if (toString place.natAbs).length < 2 then ['0'] else []) := by
    split
    · exact ⟨1, rfl⟩
    · exact ⟨0, rfl⟩
  obtain ⟨power, exponent⟩ : ∃ power, power = List.replicate count '0' ++ Nat.toDigits 10 place.natAbs := ⟨_, rfl⟩
  have value : Text.digitsValue 0 power = place.natAbs := exponent ▸ digitsValue_filled count _
  have member : ∀ c ∈ power, c.isDigit := by
    intro c inside
    rw [exponent] at inside
    exact isDigit_filled (fun _ digit => Integer.toDigits_isDigit digit) inside
  have filled : power ≠ [] := by
    rw [exponent]
    exact List.append_ne_nil_of_right_ne_nil _ Nat.toDigits_ne_nil
  refine ⟨⟨[first], others, some (decide (place < 0), power)⟩, ?_, ?_, ?_⟩
  · refine ⟨?_, ?_, ?_, ⟨first, [], rfl, fun _ => rfl⟩, Or.inr (by simp)⟩
    · intro c inside
      rw [List.mem_singleton.mp inside]
      exact all first (by simp [shape])
    · intro c inside
      exact all c (by simp [shape, inside])
    · intro negative word same
      cases same
      exact ⟨filled, member⟩
  · simp only [scaledText, Spelling.text, Spelling.fractionText, Spelling.powerText, shape, exponent, zeros]
    simp only [String.toList_append, size, apply_ite String.toList]
    by_cases alone : others = [] <;> by_cases negative : place < 0 <;> simp [alone, negative]
  · simp only [Spelling.decimal, Spelling.powerValue, value, Integer.signed_natAbs, List.singleton_append, ← shape]
    rw [show -(others.length : Int) + place = place + 1 - digits.length by simp [shape]; omega]

/-- The text of a decimal with digits spells that decimal. -/
theorem Decimal.text_spelled (d : Decimal) (positive : 0 < d.digits) :
    ∃ s : Spelling, s.Valid ∧ d.text.toList = s.text ∧ s.decimal.value = d.value := by
  have digits : (toString d.digits).toList = Nat.toDigits 10 d.digits := Nat.toList_repr
  have all : ∀ c ∈ Nat.toDigits 10 d.digits, c.isDigit := fun c member => Integer.toDigits_isDigit member
  have leading := Integer.toDigits_head_ne_zero positive
  have value := Integer.digitsValue_toDigits d.digits
  unfold text
  simp only [digits]
  split
  · by_cases whole : 0 ≤ d.exponent
    · have spelled := placedText_whole all leading whole
      rwa [value] at spelled
    · have spelled := @placedText_places _ all leading d.exponent.natAbs (by omega)
      rwa [value, show -(d.exponent.natAbs : Int) = d.exponent by omega] at spelled
  · have spelled := scaledText_spelled all leading (d.exponent + (Nat.toDigits 10 d.digits).length - 1)
    rwa [value, show d.exponent + ((Nat.toDigits 10 d.digits).length : Int) - 1 + 1 -
      (Nat.toDigits 10 d.digits).length = d.exponent by omega] at spelled

namespace Spelling

theorem powerText_stops (s : Spelling) {isMember : Char → Bool}
    (other : isMember 'e' = false) : Text.Stops isMember s.powerText := by
  unfold powerText
  split
  · exact Text.Stops.nil _
  · exact Text.Stops.cons other _

theorem Valid.readPlaces? {s : Spelling} (valid : s.Valid) :
    readPlaces? s.text = some (⟨Text.digitsValue 0 (s.whole ++ s.places), -s.places.length⟩, s.powerText) := by
  have digit : ∀ {word : List Char}, (∀ c ∈ word, c.isDigit) → ∀ c ∈ word, Text.isDigit c :=
    fun plain c member => Text.isDigit_of_isDigit (plain c member)
  have afterPlaces : Text.Stops Text.isDigit s.powerText := s.powerText_stops (by decide)
  obtain ⟨first, rest, shape, -⟩ := valid.leading
  have filled : s.whole.isEmpty = false := by simp [shape]
  unfold Real.readPlaces? text fractionText
  by_cases none : s.places = []
  · simp only [none, if_true, List.append_nil]
    rw [Text.takeWhile_run (digit valid.whole) afterPlaces, Text.dropWhile_run (digit valid.whole) afterPlaces]
    split
    · rename_i more dot
      exfalso
      revert dot
      unfold powerText
      split <;> simp
    · simp [filled]
  · have afterWhole : Text.Stops Text.isDigit ('.' :: (s.places ++ s.powerText)) := Text.Stops.cons (by decide) _
    simp only [none, if_false, List.append_assoc, List.cons_append]
    rw [Text.takeWhile_run (digit valid.whole) afterWhole, Text.dropWhile_run (digit valid.whole) afterWhole]
    simp only [Text.takeWhile_run (digit valid.places) afterPlaces, Text.dropWhile_run (digit valid.places) afterPlaces,
      filled, Bool.false_and, Bool.false_eq_true, if_false]

theorem Valid.readExponent? {s : Spelling} (valid : s.Valid) : readExponent? s.powerText = some s.powerValue := by
  unfold powerText powerValue
  cases power : s.power with
  | none => rfl
  | some exponent =>
    obtain ⟨negative, digits⟩ := exponent
    obtain ⟨filled, plain⟩ := valid.power _ _ power
    have all : digits.all Text.isDigit := List.all_eq_true.mpr fun c member => Text.isDigit_of_isDigit (plain c member)
    cases negative <;> simp [Real.readExponent?, Integer.splitSign, filled, all]

theorem Valid.readDecimal? {s : Spelling} (valid : s.Valid) : readDecimal? s.text = some s.decimal := by
  simp [Real.readDecimal?, valid.readPlaces?, valid.readExponent?, decimal]

/-- The characters of the text of a real. -/
def isPart (c : Char) : Bool := c.isDigit || c == '.' || c == 'e' || c == '-' || c == '+'

theorem Valid.isPart {s : Spelling} (valid : s.Valid) : ∀ c ∈ s.text, isPart c := by
  have digit : ∀ {c : Char}, c.isDigit → Spelling.isPart c := fun plain => by simp [Spelling.isPart, plain]
  intro c member
  simp only [text, List.mem_append] at member
  rcases member with (whole | fraction) | power
  · exact digit (valid.whole c whole)
  · unfold fractionText at fraction
    split at fraction
    · simp at fraction
    · rcases List.mem_cons.mp fraction with rfl | place
      · rfl
      · exact digit (valid.places c place)
  · unfold powerText at power
    split at power
    · simp at power
    · rename_i negative digits exponent
      rcases List.mem_cons.mp power with rfl | signed
      · rfl
      · rcases List.mem_cons.mp signed with rfl | inside
        · split <;> rfl
        · exact digit ((valid.power _ _ exponent).2 c inside)

theorem isPart_plain {c : Char} (part : isPart c) : Text.isPadding c = false ∧ c ≠ '_' := by
  simp only [Spelling.isPart, Bool.or_eq_true, beq_iff_eq] at part
  rcases part with (((digit | rfl) | rfl) | rfl) | rfl
  · obtain ⟨lower, upper⟩ := Char.isDigit_iff_toNat.mp digit
    have zero : '0'.toNat = 48 := rfl
    have nine : '9'.toNat = 57 := rfl
    refine ⟨?_, ?_⟩
    · simp only [Text.isPadding, Text.isBlank, Bool.and_eq_false_iff, Bool.or_eq_false_iff, Bool.not_eq_false']
      left
      simp only [decide_eq_false_iff_not, beq_eq_false_iff_ne]
      omega
    · rintro rfl
      exact absurd digit (by decide)
  all_goals exact ⟨by decide, by decide⟩

end Spelling

theorem trim_plain {isMember : Char → Bool} {word : List Char} (none : ∀ c ∈ word, isMember c = false) :
    Text.trim isMember word = word := by
  have unchanged : ∀ {word : List Char}, (∀ c ∈ word, isMember c = false) → word.dropWhile isMember = word := by
    intro word none
    cases word with
    | nil => rfl
    | cons c rest => rw [List.dropWhile_cons_of_neg (by simp [none c (List.mem_cons_self ..)])]
  rw [Text.trim, unchanged none, unchanged (fun c member => none c (List.mem_reverse.mp member)), List.reverse_reverse]

theorem underscoresBetweenDigits_plain {word : List Char} (none : ∀ c ∈ word, c ≠ '_') (afterDigit : Bool) :
    Integer.underscoresBetweenDigits afterDigit word := by
  induction word generalizing afterDigit with
  | nil => rfl
  | cons c rest ih =>
    rw [Integer.underscoresBetweenDigits]
    · exact ih (fun d member => none d (List.mem_cons_of_mem _ member)) _
    · exact none c (List.mem_cons_self ..)

namespace Spelling

theorem Valid.text_cons {s : Spelling} (valid : s.Valid) : ∃ first more, s.text = first :: more ∧ first.isDigit := by
  obtain ⟨first, rest, shape, -⟩ := valid.leading
  exact ⟨first, rest ++ s.fractionText ++ s.powerText, by simp [text, shape], valid.whole first (by simp [shape])⟩

theorem Valid.splitSign {s : Spelling} (valid : s.Valid) (negative : Bool) :
    Integer.splitSign ((if negative then ['-'] else []) ++ s.text) = (negative, s.text) := by
  cases negative with
  | true => rfl
  | false =>
    obtain ⟨first, more, text, digit⟩ := valid.text_cons
    simp only [Bool.false_eq_true, if_false, List.nil_append, text]
    unfold Integer.splitSign
    split
    · rename_i sign
      cases sign
      exact absurd digit (by decide)
    · rename_i sign
      cases sign
      exact absurd digit (by decide)
    · rfl

theorem toLower_isDigit {c : Char} (digit : c.isDigit) : c.toLower = c := by
  obtain ⟨-, below⟩ := Char.isDigit_iff_toNat.mp digit
  rw [Char.toLower, dif_neg]
  intro upper
  have above : 65 ≤ c.toNat := upper.1
  have nine : '9'.toNat = 57 := rfl
  omega

/-- The text of a real that is written with digits is none of the words for a real. -/
theorem Valid.text_ne_word {s : Spelling} (valid : s.Valid) (c : Char) (rest : List Char) {name : String}
    (word : name = String.ofList (c :: rest)) (letter : c.isDigit = false) :
    String.ofList (s.text.map Char.toLower) ≠ name := by
  obtain ⟨first, more, text, digit⟩ := valid.text_cons
  intro same
  rw [word, text, List.map_cons, toLower_isDigit digit] at same
  cases String.ofList_injective same
  exact absurd digit (by simp [letter])

end Spelling

/-- A spelled real with a sign is read as the real nearest to the decimal that is spelled. -/
theorem read?_spelled {s : Spelling} (valid : s.Valid) (negative : Bool) :
    read? ((if negative then ['-'] else []) ++ s.text) = some (ofDecimal negative s.decimal) := by
  have part : ∀ c ∈ (if negative then ['-'] else []) ++ s.text, Spelling.isPart c := by
    intro c member
    rcases List.mem_append.mp member with sign | inside
    · cases negative with
      | false => exact absurd sign List.not_mem_nil
      | true =>
        rw [List.mem_singleton.mp sign]
        rfl
    · exact valid.isPart c inside
  have plain : ∀ c ∈ (if negative then ['-'] else []) ++ s.text, c ≠ '_' :=
    fun c member => (Spelling.isPart_plain (part c member)).2
  have kept : ((if negative then ['-'] else []) ++ s.text).filter (· != '_') =
      (if negative then ['-'] else []) ++ s.text :=
    List.filter_eq_self.mpr fun c member => by simpa using plain c member
  unfold read?
  simp only [trim_plain fun c member => (Spelling.isPart_plain (part c member)).1, kept, valid.splitSign]
  rw [if_pos (underscoresBetweenDigits_plain plain false), readUnsigned?, if_neg, if_neg, valid.readDecimal?,
    Option.map_some]
  · exact valid.text_ne_word 'n' ['a', 'n'] rfl (by decide)
  · rintro (short | long)
    · exact valid.text_ne_word 'i' ['n', 'f'] rfl (by decide) short
    · exact valid.text_ne_word 'i' ['n', 'f', 'i', 'n', 'i', 't', 'y'] rfl (by decide) long

theorem zero_spelled :
    ∃ s : Spelling, s.Valid ∧ ['0', '.', '0'] = s.text ∧ s.decimal.digits = 0 :=
  ⟨⟨['0'], ['0'], none⟩, ⟨by simp, by simp, by simp, ⟨'0', [], rfl, fun _ => rfl⟩, by simp⟩, rfl, rfl⟩

/-- The text of a finite real spells a decimal to which that real is the nearest one. -/
theorem text_spelled {x : Float} (finite : x.toBits.toNat % signBit < infinityBits) :
    ∃ s : Spelling, s.Valid ∧
      (text x).toList = (if decide (signBit ≤ x.toBits.toNat) then ['-'] else []) ++ s.text ∧
      ofDecimal (decide (signBit ≤ x.toBits.toNat)) s.decimal = x := by
  have split := ofBits_split x
  have sign : (if signBit ≤ x.toBits.toNat then "-" else "").toList =
      if decide (signBit ≤ x.toBits.toNat) then ['-'] else [] := by
    by_cases negative : signBit ≤ x.toBits.toNat <;> simp [negative]
  unfold text ofDecimal
  simp only
  rw [if_neg (by omega), if_neg (by omega)]
  -- Zero has no digits of its own and is written out.
  by_cases zero : x.toBits.toNat % signBit = 0
  · obtain ⟨s, valid, spelled, none⟩ := zero_spelled
    refine ⟨s, valid, ?_, ?_⟩
    · rw [if_pos zero, String.toList_append, sign, ← spelled]
      rfl
    · rw [Decimal.nearest_zero none, ← zero, split]
  · have nearest := @nearest_shortest (x.toBits.toNat % signBit) (by omega)
    have positive : 0 < (shortest (x.toBits.toNat % signBit)).digits := by
      rw [Nat.pos_iff_ne_zero]
      intro none
      rw [Decimal.nearest_zero none] at nearest
      exact zero nearest.symm
    obtain ⟨s, valid, spelled, value⟩ := Decimal.text_spelled _ positive
    refine ⟨s, valid, ?_, ?_⟩
    · rw [if_neg zero, String.toList_append, sign, ← spelled]
    · rw [Decimal.nearest_congr value, nearest, split]

end PhyLang.Real
