import Mathlib.Tactic
import PhyLang.Text.LineEnd
import PhyLang.Text.Utf8

namespace PhyLang.Text

namespace Utf8

theorem toNat_ofNat {n : Nat} (small : n < 256) : (UInt8.ofNat n).toNat = n := by
  rw [UInt8.toNat_ofNat']
  omega

theorem ofNat_lt {n : Nat} (small : n < 256) (b : UInt8) : UInt8.ofNat n < b ↔ n < b.toNat := by
  rw [UInt8.lt_iff_toNat_lt, toNat_ofNat small]

theorem ofNat_eq {n : Nat} (small : n < 256) (b : UInt8) : UInt8.ofNat n = b ↔ n = b.toNat := by
  rw [← UInt8.toNat_inj, toNat_ofNat small]

theorem has_ofNat {n : Nat} (small : n < 256) (r : Range) :
    r.has (UInt8.ofNat n) ↔ r.least.toNat ≤ n ∧ n ≤ r.most.toNat := by
  simp only [Range.has, Bool.and_eq_true, decide_eq_true_eq, UInt8.le_iff_toNat_le, toNat_ofNat small]

theorem begin?_two {n : Nat} (lower : 0xc2 ≤ n) (upper : n < 0xe0) :
    begin? (UInt8.ofNat n) = some ⟨UInt8.ofNat n, 1, n % 0x20, tail, []⟩ := by
  have small : n < 256 := by omega
  rw [begin?, if_neg (by rw [ofNat_lt small]; change ¬n < 0xc2; omega),
    if_pos (by rw [ofNat_lt small]; exact upper), toNat_ofNat small]

/-- The first byte of three leaves a narrower range for the second byte where a shorter form or a half
of a pair would come about. -/
theorem begin?_three {n : Nat} (lower : 0xe0 ≤ n) (upper : n < 0xf0) :
    ∃ next, begin? (UInt8.ofNat n) = some ⟨UInt8.ofNat n, 1, n % 0x10, next, [tail]⟩ ∧
      next.least.toNat = (if n = 0xe0 then 0xa0 else 0x80) ∧ next.most.toNat = if n = 0xed then 0x9f else 0xbf := by
  have small : n < 256 := by omega
  have first : ¬UInt8.ofNat n < 0xc2 := by rw [ofNat_lt small]; change ¬n < 0xc2; omega
  have second : ¬UInt8.ofNat n < 0xe0 := by rw [ofNat_lt small]; change ¬n < 0xe0; omega
  have third : UInt8.ofNat n < 0xf0 := by rw [ofNat_lt small]; exact upper
  have least : UInt8.ofNat n = 0xe0 ↔ n = 0xe0 := ofNat_eq small 0xe0
  have halves : UInt8.ofNat n = 0xed ↔ n = 0xed := ofNat_eq small 0xed
  simp only [begin?, first, second, third, least, halves, toNat_ofNat small, if_false, if_true]
  split
  · rename_i same
    exact ⟨_, rfl, rfl, by rw [if_neg (by omega)]; rfl⟩
  · split
    · exact ⟨_, rfl, rfl, rfl⟩
    · exact ⟨_, rfl, rfl, rfl⟩

/-- The first byte of four leaves a narrower range for the second byte where a shorter form or a number
that is too large would come about. -/
theorem begin?_four {n : Nat} (lower : 0xf0 ≤ n) (upper : n ≤ 0xf4) :
    ∃ next, begin? (UInt8.ofNat n) = some ⟨UInt8.ofNat n, 1, n % 0x08, next, [tail, tail]⟩ ∧
      next.least.toNat = (if n = 0xf0 then 0x90 else 0x80) ∧ next.most.toNat = if n = 0xf4 then 0x8f else 0xbf := by
  have small : n < 256 := by omega
  have first : ¬UInt8.ofNat n < 0xc2 := by rw [ofNat_lt small]; change ¬n < 0xc2; omega
  have second : ¬UInt8.ofNat n < 0xe0 := by rw [ofNat_lt small]; change ¬n < 0xe0; omega
  have third : ¬UInt8.ofNat n < 0xf0 := by rw [ofNat_lt small]; change ¬n < 0xf0; omega
  have notLeast : ¬UInt8.ofNat n = 0xe0 := by rw [ofNat_eq small]; change ¬n = 0xe0; omega
  have notHalves : ¬UInt8.ofNat n = 0xed := by rw [ofNat_eq small]; change ¬n = 0xed; omega
  have least : UInt8.ofNat n = 0xf0 ↔ n = 0xf0 := ofNat_eq small 0xf0
  have greatest : UInt8.ofNat n = 0xf4 ↔ n = 0xf4 := ofNat_eq small 0xf4
  have below : UInt8.ofNat n < 0xf4 ↔ n < 0xf4 := ofNat_lt small 0xf4
  simp only [begin?, first, second, third, notLeast, notHalves, least, greatest, below, toNat_ofNat small, if_false]
  split
  · rename_i same
    exact ⟨_, rfl, rfl, by rw [if_neg (by omega)]; rfl⟩
  · split
    · rename_i inside
      exact ⟨_, rfl, rfl, by rw [if_neg (by omega)]; rfl⟩
    · have top : n = 0xf4 := by omega
      rw [top]
      exact ⟨_, rfl, rfl, rfl⟩

theorem decodeFrom_begin {b : UInt8} (large : ¬b < 0x80) {u : Unfinished} (begins : begin? b = some u)
    (position : Nat) (done : List Char) (rest : List UInt8) :
    decodeFrom position done none (b :: rest) = decodeFrom (position + 1) done (some u) rest := by
  simp only [decodeFrom, large, if_false, begins]

theorem decodeFrom_next {now : Range} {b : UInt8} (fits : now.has b) (first : UInt8) (size code : Nat) (next : Range)
    (later : List Range) (position : Nat) (done : List Char) (rest : List UInt8) :
    decodeFrom position done (some ⟨first, size, code, now, next :: later⟩) (b :: rest) =
      decodeFrom (position + 1) done (some ⟨first, size + 1, 0x40 * code + b.toNat % 0x40, next, later⟩) rest := by
  simp only [decodeFrom, fits, if_true]

theorem decodeFrom_last {now : Range} {b : UInt8} (fits : now.has b) (first : UInt8) (size code : Nat)
    (position : Nat) (done : List Char) (rest : List UInt8) :
    decodeFrom position done (some ⟨first, size, code, now, []⟩) (b :: rest) =
      decodeFrom (position + 1) (Char.ofNat (0x40 * code + b.toNat % 0x40) :: done) none rest := by
  simp only [decodeFrom, fits, if_true]

theorem tail_has {n : Nat} : tail.has (UInt8.ofNat (n % 0x40 + 0x80)) := by
  have most : tail.most.toNat = 0xbf := rfl
  have least : tail.least.toNat = 0x80 := rfl
  rw [has_ofNat (by omega)]
  omega

theorem payload {n : Nat} : (UInt8.ofNat (n % 0x40 + 0x80)).toNat % 0x40 = n % 0x40 := by
  rw [toNat_ofNat (by omega)]
  omega

theorem not_ofNat_lt {n : Nat} (large : 0x80 ≤ n) (small : n < 256) : ¬UInt8.ofNat n < 0x80 := by
  rw [ofNat_lt small]
  change ¬n < 0x80
  omega

theorem code_two {n : Nat} (small : n ≤ 0x7ff) : 0x40 * ((n / 64 % 0x20 + 0xc0) % 0x20) + n % 0x40 = n := by
  omega

theorem code_three {n : Nat} (small : n ≤ 0xffff) :
    0x40 * (0x40 * ((n / 4096 % 0x10 + 0xe0) % 0x10) + n / 64 % 0x40) + n % 0x40 = n := by
  omega

theorem code_four {n : Nat} (small : n < 0x110000) :
    0x40 * (0x40 * (0x40 * ((n / 262144 % 0x08 + 0xf0) % 0x08) + n / 4096 % 0x40) + n / 64 % 0x40) + n % 0x40 = n := by
  omega

theorem ofNat_eq_char {c : Char} {n : Nat} (same : n = c.toNat) : Char.ofNat n = c := by
  rw [same, Char.ofNat_toNat]

section Characters

variable {c : Char} (position : Nat) (done : List Char) (rest : List UInt8)

theorem decodeFrom_one (small : c.toNat ≤ 0x7f) :
    decodeFrom position done none (UInt8.ofNat c.toNat :: rest) = decodeFrom (position + 1) (c :: done) none rest := by
  have below : UInt8.ofNat c.toNat < 0x80 := (ofNat_lt (by omega) _).mpr (by change _ < 128; omega)
  rw [decodeFrom, if_pos below, toNat_ofNat (by omega), Char.ofNat_toNat]

theorem decodeFrom_two (large : ¬c.toNat ≤ 0x7f) (small : c.toNat ≤ 0x7ff) :
    decodeFrom position done none (UInt8.ofNat (c.toNat / 64 % 0x20 + 0xc0) ::
      UInt8.ofNat (c.toNat % 0x40 + 0x80) :: rest) = decodeFrom (position + 1 + 1) (c :: done) none rest := by
  have begins := @begin?_two (c.toNat / 64 % 0x20 + 0xc0) (by omega) (by omega)
  rw [decodeFrom_begin (not_ofNat_lt (by omega) (by omega)) begins, decodeFrom_last tail_has, payload,
    ofNat_eq_char (code_two small)]

theorem decodeFrom_three (large : ¬c.toNat ≤ 0x7ff) (small : c.toNat ≤ 0xffff) :
    decodeFrom position done none (UInt8.ofNat (c.toNat / 4096 % 0x10 + 0xe0) ::
      UInt8.ofNat (c.toNat / 64 % 0x40 + 0x80) :: UInt8.ofNat (c.toNat % 0x40 + 0x80) :: rest) =
      decodeFrom (position + 1 + 1 + 1) (c :: done) none rest := by
  have valid : c.toNat < 0xd800 ∨ 0xdfff < c.toNat ∧ c.toNat < 0x110000 := c.valid
  -- The ranges for the second byte leave out surrogates and what fits into fewer bytes.
  obtain ⟨next, begins, least, most⟩ := @begin?_three (c.toNat / 4096 % 0x10 + 0xe0) (by omega) (by omega)
  have fits : next.has (UInt8.ofNat (c.toNat / 64 % 0x40 + 0x80)) := by
    rw [has_ofNat (by omega), least, most]
    split <;> split <;> omega
  rw [decodeFrom_begin (not_ofNat_lt (by omega) (by omega)) begins, decodeFrom_next fits,
    decodeFrom_last tail_has, payload, payload, ofNat_eq_char (code_three small)]

theorem decodeFrom_four (large : ¬c.toNat ≤ 0xffff) :
    decodeFrom position done none (UInt8.ofNat (c.toNat / 262144 % 0x08 + 0xf0) ::
      UInt8.ofNat (c.toNat / 4096 % 0x40 + 0x80) :: UInt8.ofNat (c.toNat / 64 % 0x40 + 0x80) ::
      UInt8.ofNat (c.toNat % 0x40 + 0x80) :: rest) =
      decodeFrom (position + 1 + 1 + 1 + 1) (c :: done) none rest := by
  have valid : c.toNat < 0xd800 ∨ 0xdfff < c.toNat ∧ c.toNat < 0x110000 := c.valid
  obtain ⟨next, begins, least, most⟩ := @begin?_four (c.toNat / 262144 % 0x08 + 0xf0) (by omega) (by omega)
  have fits : next.has (UInt8.ofNat (c.toNat / 4096 % 0x40 + 0x80)) := by
    rw [has_ofNat (by omega), least, most]
    split <;> split <;> omega
  rw [decodeFrom_begin (not_ofNat_lt (by omega) (by omega)) begins, decodeFrom_next fits, decodeFrom_next tail_has,
    decodeFrom_last tail_has, payload, payload, payload, ofNat_eq_char (code_four (by omega))]

end Characters

/-- The bytes of one character are read as that character. -/
theorem decodeFrom_utf8EncodeChar (position : Nat) (done : List Char) (c : Char) (rest : List UInt8) :
    ∃ after, decodeFrom position done none (String.utf8EncodeChar c ++ rest) =
      decodeFrom after (c :: done) none rest := by
  have value : c.val.toNat = c.toNat := rfl
  unfold String.utf8EncodeChar
  simp only [value]
  split
  next one => exact ⟨_, decodeFrom_one position done rest one⟩
  next one =>
    split
    next two => exact ⟨_, decodeFrom_two position done rest one two⟩
    next two =>
      split
      next three => exact ⟨_, decodeFrom_three position done rest two three⟩
      next three => exact ⟨_, decodeFrom_four position done rest three⟩

theorem decodeFrom_encode (position : Nat) (done text : List Char) :
    decodeFrom position done none (text.flatMap String.utf8EncodeChar) = .ok (done.reverse ++ text) := by
  induction text generalizing position done with
  | nil => simp [decodeFrom]
  | cons c text ih =>
    obtain ⟨after, read⟩ := decodeFrom_utf8EncodeChar position done c (text.flatMap String.utf8EncodeChar)
    rw [List.flatMap_cons, read, ih]
    simp

/-- The bytes of a text hold that text. -/
theorem decode_encode (text : String) : decode (encode text) = .ok text.toList := by
  rw [decode, encode, decodeFrom_encode]
  rfl

end Utf8

/-- A text without carriage returns has its line ends unified. -/
theorem unifyLineEnds_plain {text : List Char} (plain : '\r' ∉ text) : unifyLineEnds text = text := by
  induction text with
  | nil => rfl
  | cons c text ih =>
    simp only [List.mem_cons, not_or] at plain
    rw [unifyLineEnds]
    · rw [ih plain.2]
    · rintro rest rfl
      exact absurd rfl plain.1
    · rintro rfl
      exact absurd rfl plain.1

end PhyLang.Text
