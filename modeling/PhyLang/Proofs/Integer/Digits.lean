import Mathlib.Tactic
import PhyLang.Integer.Text

namespace PhyLang

namespace Text

/-- What follows a run of characters of a class, as far as it does not belong to the run. -/
def Stops (isMember : Char → Bool) (rest : List Char) : Prop := ∀ c, rest.head? = some c → isMember c = false

theorem Stops.nil (isMember : Char → Bool) : Stops isMember [] := by simp [Stops]

theorem Stops.cons {isMember : Char → Bool} {c : Char} (other : isMember c = false) (rest : List Char) :
    Stops isMember (c :: rest) := by
  intro d first
  cases Option.some.inj first
  exact other

theorem takeWhile_run {isMember : Char → Bool} {run rest : List Char} (members : ∀ c ∈ run, isMember c)
    (stops : Stops isMember rest) : (run ++ rest).takeWhile isMember = run := by
  rw [List.takeWhile_append_of_pos members]
  cases rest with
  | nil => simp
  | cons c rest => rw [List.takeWhile_cons_of_neg (by simp [stops c rfl]), List.append_nil]

theorem dropWhile_run {isMember : Char → Bool} {run rest : List Char} (members : ∀ c ∈ run, isMember c)
    (stops : Stops isMember rest) : (run ++ rest).dropWhile isMember = rest := by
  rw [List.dropWhile_append_of_pos members]
  cases rest with
  | nil => rfl
  | cons c rest => rw [List.dropWhile_cons_of_neg (by simp [stops c rfl])]

theorem digitValue?_of_isDigit {c : Char} (digit : c.isDigit) :
    digitValue? c = some (c.toNat - '0'.toNat) := by
  obtain ⟨lower, upper⟩ := Char.isDigit_iff_toNat.mp digit
  have nine : '9'.toNat = 0x39 := rfl
  have range : '0' ≤ c ∧ c ≤ '9' := ⟨lower, upper⟩
  rw [digitValue?, if_pos (by omega), if_pos range]
  rfl

theorem isDigit_of_isDigit {c : Char} (digit : c.isDigit) : isDigit c := by
  simp [isDigit, digitValue?_of_isDigit digit]

/-- A digit of any script stands for a number below ten. -/
theorem digitValue?_lt {c : Char} {digit : Nat} (found : digitValue? c = some digit) : digit < 10 := by
  unfold digitValue? at found
  split at found
  · split at found
    · rename_i range
      obtain ⟨lower, upper⟩ := range
      have top : c.toNat ≤ 0x39 := upper
      cases Option.some.inj found
      omega
    · simp at found
  · obtain ⟨origin, atOrigin, value⟩ := Option.map_eq_some_iff.mp found
    have range := List.find?_some atOrigin
    simp only [Bool.and_eq_true, decide_eq_true_eq] at range
    omega

theorem digitsValue_cons (start : Nat) (c : Char) (rest : List Char) :
    digitsValue start (c :: rest) =
      digitsValue ((digitValue? c).elim start fun digit => 10 * start + digit) rest := rfl

theorem digitsValue_eq_ofDigitChars {word : List Char} (digits : ∀ c ∈ word, c.isDigit) (start : Nat) :
    digitsValue start word = Nat.ofDigitChars 10 word start := by
  induction word generalizing start with
  | nil => rfl
  | cons c rest ih =>
    have first := digitValue?_of_isDigit (digits c (List.mem_cons_self ..))
    rw [Nat.ofDigitChars_cons, digitsValue_cons, first]
    exact ih (fun d member => digits d (List.mem_cons_of_mem _ member)) _

/-- A word denotes a number below the power of ten with as many zeros as the word has characters. -/
theorem digitsValue_lt (word : List Char) (start : Nat) :
    digitsValue start word < (start + 1) * 10 ^ word.length := by
  induction word generalizing start with
  | nil => simp [digitsValue]
  | cons c rest ih =>
    have small : ((digitValue? c).elim start fun digit => 10 * start + digit) + 1 ≤ (start + 1) * 10 := by
      cases found : digitValue? c with
      | none => simp only [Option.elim_none]; omega
      | some digit =>
        have below := digitValue?_lt found
        simp only [Option.elim_some]
        omega
    calc digitsValue start (c :: rest)
        < (((digitValue? c).elim start fun digit => 10 * start + digit) + 1) * 10 ^ rest.length := ih _
      _ ≤ (start + 1) * 10 * 10 ^ rest.length := Nat.mul_le_mul_right _ small
      _ = (start + 1) * 10 ^ (c :: rest).length := by rw [List.length_cons, pow_succ]; ring

end Text

namespace Integer

theorem toDigits_isDigit {n : Nat} {c : Char} (member : c ∈ Nat.toDigits 10 n) : c.isDigit :=
  Nat.isDigit_of_mem_toDigits (by omega) (by omega) member

theorem digitsValue_toDigits (n : Nat) : Text.digitsValue 0 (Nat.toDigits 10 n) = n := by
  rw [Text.digitsValue_eq_ofDigitChars (fun _ member => toDigits_isDigit member)]
  exact Nat.ofDigitChars_ten_toDigits

/-- The first digit of a number is not zero, unless the number is. -/
theorem toDigits_head_ne_zero {n : Nat} (positive : 0 < n) :
    ∃ first rest, Nat.toDigits 10 n = first :: rest ∧ first ≠ '0' := by
  induction n using Nat.strong_induction_on with
  | _ n ih =>
    by_cases small : n < 10
    · refine ⟨n.digitChar, [], Nat.toDigits_of_lt_base small, ?_⟩
      interval_cases n <;> decide
    · obtain ⟨first, rest, digits, nonzero⟩ := ih (n / 10) (by omega) (by omega)
      refine ⟨first, rest ++ [(n % 10).digitChar], ?_, nonzero⟩
      rw [Nat.toDigits_of_base_le (by omega) (by omega), digits, List.cons_append]

theorem length_toDigits_le {n : Nat} (writable : n < unwritable) :
    (Nat.toDigits 10 n).length ≤ digitLimit := by
  have bound : ∀ k, 0 < k → n < Nat.pow 10 k → (Nat.toDigits 10 n).length ≤ k :=
    fun k positive below => (Nat.length_toDigits_le_iff (by omega) positive).mpr below
  unfold unwritable at writable
  exact bound digitLimit (by decide) writable

/-- A word of at most as many characters as the greatest number of digits denotes a writable number. -/
theorem digitsValue_writable {word : List Char} (short : word.length ≤ digitLimit) :
    Text.digitsValue 0 word < unwritable := by
  have bound : ∀ k, word.length ≤ k → Text.digitsValue 0 word < Nat.pow 10 k := by
    intro k within
    have below := Text.digitsValue_lt word 0
    rw [Nat.zero_add, Nat.one_mul] at below
    exact below.trans_le (Nat.pow_le_pow_right (by omega) within)
  unfold unwritable
  exact bound digitLimit short

/-- A number of at most as many binary digits as the greatest number of digits is writable. -/
theorem lt_unwritable {n digits : Nat} (below : n < 2 ^ digits) (few : digits ≤ digitLimit) : n < unwritable := by
  have bound : ∀ k, digits ≤ k → n < Nat.pow 10 k := by
    intro k within
    have wider : 2 ^ digits ≤ 10 ^ digits := Nat.pow_le_pow_left (by omega) digits
    exact (below.trans_le wider).trans_le (Nat.pow_le_pow_right (by omega) within)
  unfold unwritable
  exact bound digitLimit few

/-- The written form of an integer: a minus sign if it is negative, and the digits of its size. -/
theorem toList_toString (n : Int) :
    (toString n).toList = (if n < 0 then ['-'] else []) ++ Nat.toDigits 10 n.natAbs := by
  rw [Int.toString_eq_repr, Int.repr_eq_if]
  by_cases negative : n < 0
  · rw [if_neg (by omega), if_pos negative, String.toList_append, Nat.toList_repr]
    rw [show (-n).toNat = n.natAbs by omega]
    rfl
  · rw [if_pos (by omega), if_neg negative, Nat.toList_repr, show n.toNat = n.natAbs by omega]
    rfl

theorem signed_natAbs (n : Int) : signed (decide (n < 0)) n.natAbs = n := by
  unfold signed
  split
  · rename_i negative
    have below : n < 0 := of_decide_eq_true negative
    omega
  · rename_i other
    have above : ¬n < 0 := fun below => other (decide_eq_true below)
    omega

end Integer

end PhyLang
