import Mathlib.Tactic
import PhyLang.Real.Decimal

namespace PhyLang.Real

/-- A fraction is rounded alike after it has been expanded. -/
theorem roundHalfEven_mul {num den k : Nat} (positive : 0 < k) :
    roundHalfEven (num * k) (den * k) = roundHalfEven num den := by
  have quotient : num * k / (den * k) = num / den := Nat.mul_div_mul_right _ _ positive
  have rest : num * k % (den * k) = num % den * k := Nat.mul_mod_mul_right _ _ _
  have twice : 2 * (num % den * k) = 2 * (num % den) * k := by ring
  unfold roundHalfEven
  simp only [quotient, rest, twice, Nat.mul_lt_mul_right positive, Nat.mul_left_inj positive.ne']

theorem nearestBits_mul {num den k : Nat} (positive : 0 < k) :
    nearestBits (num * k) (den * k) = nearestBits num den := by
  have scaled : num * k * unitsInOne = num * unitsInOne * k := by ring
  have quotient : num * unitsInOne * k / (den * k) = num * unitsInOne / den := Nat.mul_div_mul_right _ _ positive
  unfold nearestBits
  simp only [scaled, quotient]
  rw [show ∀ e, den * k * Nat.pow 2 e = den * Nat.pow 2 e * k from fun e => by ring, roundHalfEven_mul positive]

/-- Equal fractions are rounded alike. -/
theorem nearestBits_congr {num den num' den' : Nat} (den_pos : 0 < den) (den'_pos : 0 < den')
    (same : num * den' = num' * den) : nearestBits num den = nearestBits num' den' := by
  rw [← nearestBits_mul den'_pos, ← @nearestBits_mul num' den' den den_pos, same, Nat.mul_comm den]

theorem unitsInOne_eq : unitsInOne = 2 ^ unitBits := by
  have power : ∀ k, Nat.pow 2 k = 2 ^ k := fun _ => rfl
  unfold unitsInOne
  exact power unitBits

theorem unitsInOne_pos : 0 < unitsInOne := by
  rw [unitsInOne_eq]
  positivity

/-- A whole number of units is rounded as the units of one. -/
theorem nearestBits_units (units : Nat) :
    nearestBits units unitsInOne =
      (units.log2 - fractionBits) * fractions + roundHalfEven units (Nat.pow 2 (units.log2 - fractionBits)) := by
  unfold nearestBits
  simp only [Nat.mul_div_cancel _ unitsInOne_pos]
  rw [Nat.mul_comm unitsInOne, roundHalfEven_mul unitsInOne_pos]

theorem roundHalfEven_exact (n k : Nat) : roundHalfEven (n * 2 ^ k) (2 ^ k) = n := by
  have positive : 0 < 2 ^ k := Nat.pow_pos (by omega)
  simp only [roundHalfEven, Nat.mul_div_cancel _ positive, Nat.mul_mod_left]
  rw [if_pos (by omega)]

/-- The value of a finite real is rounded to that real. -/
theorem nearestBits_unitsOfBits (bits : Nat) : nearestBits (unitsOfBits bits) unitsInOne = bits := by
  have width : fractions = 2 ^ fractionBits := rfl
  have whole := Nat.div_add_mod bits fractions
  have small : bits % fractions < fractions := Nat.mod_lt _ (by rw [width]; positivity)
  rw [nearestBits_units, unitsOfBits]
  generalize bits % fractions = fraction at whole small
  generalize bits / fractions = scale at whole
  simp only [Nat.pow_eq]
  -- Below the least scale the units are the fraction itself; above, its leading digit is left out.
  cases scale with
  | zero =>
    have log : fraction.log2 - fractionBits = 0 := by
      rw [Nat.sub_eq_zero_iff_le]
      by_cases zero : fraction = 0
      · rw [zero]
        decide
      · exact ((Nat.log2_lt zero).mpr (small.trans_eq width)).le
    have round := roundHalfEven_exact fraction 0
    rw [pow_zero, Nat.mul_one] at round
    rw [if_pos rfl, log, pow_zero, round]
    omega
  | succ k =>
    have log : ((fractions + fraction) * 2 ^ k).log2 = k + fractionBits := by
      have positive : 0 < 2 ^ k := Nat.pow_pos (by omega)
      have lower : 2 ^ (k + fractionBits) ≤ (fractions + fraction) * 2 ^ k := by
        rw [pow_add, Nat.mul_comm, ← width]
        exact Nat.mul_le_mul_right _ (Nat.le_add_right ..)
      have upper : (fractions + fraction) * 2 ^ k < 2 ^ (k + fractionBits + 1) := by
        rw [pow_succ, pow_add, ← width]
        nlinarith
      exact (Nat.log2_eq_iff (by omega)).mpr ⟨lower, upper⟩
    rw [if_neg (Nat.succ_ne_zero k), Nat.succ_sub_one, log, Nat.add_sub_cancel, roundHalfEven_exact, ← whole]
    ring

theorem roundHalfEven_zero {num den : Nat} (small : 2 * num < den) : roundHalfEven num den = 0 := by
  have below : num < den := by omega
  simp only [roundHalfEven, Nat.div_eq_of_lt below, Nat.mod_eq_of_lt below]
  rw [if_pos (Or.inl small)]

/-- What is below half a unit is rounded to zero. -/
theorem nearestBits_zero {num den : Nat} (small : 2 * (num * unitsInOne) < den) : nearestBits num den = 0 := by
  have below : num * unitsInOne < den := by omega
  have log : (num * unitsInOne / den).log2 - fractionBits = 0 := by
    rw [Nat.div_eq_of_lt below]
    decide
  have round := roundHalfEven_zero small
  simp only [nearestBits, log, Nat.pow_eq, pow_zero, Nat.mul_one, round, Nat.zero_mul]

/-- The number of digits in the scale of a fraction is a bound for what it is rounded to. -/
theorem le_nearestBits {num den k : Nat} (large : 2 ^ (k + fractionBits) ≤ num * unitsInOne / den) :
    k * fractions ≤ nearestBits num den := by
  have positive : num * unitsInOne / den ≠ 0 := by
    have power : 0 < 2 ^ (k + fractionBits) := Nat.pow_pos (by omega)
    omega
  have log : k + fractionBits ≤ (num * unitsInOne / den).log2 := (Nat.le_log2 positive).mpr large
  have scale : k ≤ (num * unitsInOne / den).log2 - fractionBits := by omega
  exact (Nat.mul_le_mul_right _ scale).trans (Nat.le_add_right ..)

/-- What is rounded has at most one binary digit more than the fraction of a real. -/
theorem roundHalfEven_le {units excess : Nat} (near : units.log2 ≤ excess + fractionBits) :
    roundHalfEven units (Nat.pow 2 excess) ≤ 2 * fractions := by
  have above : units < 2 ^ (fractionBits + 1) * 2 ^ excess := by
    rw [← Nat.pow_add]
    exact Nat.lt_log2_self.trans_le (Nat.pow_le_pow_right (by omega) (by omega))
  have divided : units / 2 ^ excess < 2 ^ (fractionBits + 1) := Nat.div_lt_of_lt_mul (by rwa [Nat.mul_comm])
  have width : 2 * fractions = 2 ^ (fractionBits + 1) := rfl
  rw [width]
  unfold roundHalfEven
  rw [Nat.pow_eq]
  dsimp only
  split <;> omega

/-- A number without sign that has at most 1023 binary digits is rounded to a finite real. -/
theorem nearestBits_lt_infinityBits {num digits : Nat} (below : num < 2 ^ digits) (few : digits ≤ 1023) :
    nearestBits num 1 < infinityBits := by
  have log : (num * unitsInOne).log2 < digits + unitBits := by
    by_cases zero : num * unitsInOne = 0
    · rw [zero, Nat.log2_zero]
      unfold unitBits
      omega
    · refine (Nat.log2_lt zero).mpr ?_
      rw [unitsInOne_eq, Nat.pow_add]
      exact Nat.mul_lt_mul_of_pos_right below (Nat.pow_pos (by omega))
  have scale : (num * unitsInOne).log2 - fractionBits ≤ 2044 := by
    unfold unitBits at log
    unfold fractionBits
    omega
  have rounded := @roundHalfEven_le (num * unitsInOne) ((num * unitsInOne).log2 - fractionBits) (by omega)
  have product := Nat.mul_le_mul_right fractions scale
  have positive : 0 < fractions := Nat.pow_pos (by omega)
  simp only [nearestBits, Nat.div_one, Nat.one_mul, infinityBits]
  omega

/-- An integer of at most 1023 binary digits has a nearest real. -/
theorem ofInt?_isSome {n : Int} {digits : Nat} (below : n.natAbs < 2 ^ digits) (few : digits ≤ 1023) :
    ∃ x, ofInt? n = some x := by
  refine ⟨ofBits (n < 0) (nearestBits n.natAbs 1), ?_⟩
  unfold ofInt?
  rw [if_pos (nearestBits_lt_infinityBits below few)]

namespace Decimal

/-- The value of a decimal. -/
def value (d : Decimal) : ℚ := d.digits * (10 : ℚ) ^ d.exponent

theorem fraction_pos (d : Decimal) : 0 < d.fraction.2 := by
  unfold fraction
  split
  · exact Nat.pow_pos (by omega)
  · exact Nat.one_pos

theorem fraction_zero {d : Decimal} (none : d.digits = 0) : d.fraction.1 = 0 := by
  unfold fraction
  split
  · exact none
  · rw [none, Nat.zero_mul]

theorem fraction_value (d : Decimal) : (d.fraction.1 : ℚ) = d.value * d.fraction.2 := by
  unfold fraction value
  split
  · rename_i negative
    have nonzero : (10 : ℚ) ^ d.exponent.natAbs ≠ 0 := by positivity
    have power : (10 : ℚ) ^ d.exponent = ((10 : ℚ) ^ d.exponent.natAbs)⁻¹ := by
      rw [← zpow_natCast, ← zpow_neg]
      congr 1
      omega
    rw [Nat.pow_eq, Nat.cast_pow, Nat.cast_ofNat, power, mul_assoc, inv_mul_cancel₀ nonzero, mul_one]
  · have power : (10 : ℚ) ^ d.exponent = (10 : ℚ) ^ d.exponent.natAbs := by
      rw [← zpow_natCast]
      congr 1
      omega
    rw [Nat.pow_eq, Nat.cast_mul, Nat.cast_pow, Nat.cast_ofNat, Nat.cast_one, mul_one, power]

/-- A decimal with few digits for its exponent is below half a unit: the digits are fewer than a power of two,
and each place divides them by more than eight. -/
theorem nearestBits_fraction_small {d : Decimal} (small : d.digits.log2 + 3 * d.exponent < -(unitBits + 3 : Int)) :
    nearestBits d.fraction.1 d.fraction.2 = 0 := by
  have negative : d.exponent < 0 := by omega
  have digits : d.digits < 2 ^ (d.digits.log2 + 1) := Nat.lt_log2_self
  apply nearestBits_zero
  rw [fraction, if_pos negative]
  calc 2 * (d.digits * unitsInOne)
      < 2 * (2 ^ (d.digits.log2 + 1) * 2 ^ unitBits) := by
        rw [unitsInOne_eq]
        have positive : 0 < 2 ^ unitBits := by positivity
        nlinarith
    _ = 2 ^ (d.digits.log2 + unitBits + 2) := by ring
    _ ≤ 2 ^ (3 * d.exponent.natAbs) := Nat.pow_le_pow_right (by omega) (by omega)
    _ = 8 ^ d.exponent.natAbs := by rw [pow_mul]; norm_num
    _ ≤ 10 ^ d.exponent.natAbs := Nat.pow_le_pow_left (by omega) _

/-- The powers of ten above the largest real. The least of them is split into five, small enough to be
computed. -/
theorem le_ten_pow {places : Nat} (many : 309 < places) : 2 ^ (2047 + fractionBits) ≤ 10 ^ places * 2 ^ unitBits := by
  have exponent : 2047 + fractionBits = 205 * 5 + unitBits := by decide
  have step : 2 ^ 205 ≤ 10 ^ 62 := by norm_num
  obtain ⟨more, rfl⟩ := Nat.exists_eq_add_of_le (show 62 * 5 ≤ places by omega)
  rw [exponent, pow_add, pow_mul, pow_add, pow_mul]
  refine Nat.mul_le_mul_right _ ?_
  calc (2 ^ 205) ^ 5
      ≤ (10 ^ 62) ^ 5 := Nat.pow_le_pow_left step 5
    _ ≤ (10 ^ 62) ^ 5 * 10 ^ more := Nat.le_mul_of_pos_right _ (Nat.pow_pos (by omega))

/-- A decimal with digits and a large exponent is above the largest real. -/
theorem infinityBits_le_nearestBits {d : Decimal} (nonzero : d.digits ≠ 0) (large : 309 < d.exponent) :
    infinityBits ≤ nearestBits d.fraction.1 d.fraction.2 := by
  have power : 2 ^ (2047 + fractionBits) ≤ 10 ^ d.exponent.natAbs * 2 ^ unitBits := le_ten_pow (by omega)
  apply le_nearestBits
  rw [fraction, if_neg (by omega), Nat.div_one, unitsInOne_eq, Nat.mul_assoc]
  exact power.trans (Nat.le_mul_of_pos_left _ (by omega))

/-- Decimals far out of range are rounded like all others. -/
theorem nearest_eq (d : Decimal) :
    d.nearest = min (nearestBits d.fraction.1 d.fraction.2) infinityBits := by
  unfold nearest
  split
  next tiny =>
    have zero : nearestBits d.fraction.1 d.fraction.2 = 0 := by
      rcases tiny with none | small
      · apply nearestBits_zero
        rw [fraction_zero none, Nat.zero_mul, Nat.mul_zero]
        exact d.fraction_pos
      · exact nearestBits_fraction_small small
    rw [zero, Nat.zero_min]
  next other =>
    split
    next huge =>
      have nonzero : d.digits ≠ 0 := fun zero => other (Or.inl zero)
      rw [min_eq_right (infinityBits_le_nearestBits nonzero huge)]
    next => rfl

/-- The real nearest to a decimal depends only on the value of the decimal. -/
theorem nearest_congr {d e : Decimal} (same : d.value = e.value) : d.nearest = e.nearest := by
  have cross : d.fraction.1 * e.fraction.2 = e.fraction.1 * d.fraction.2 := by
    have equal : (d.fraction.1 : ℚ) * e.fraction.2 = e.fraction.1 * d.fraction.2 := by
      rw [fraction_value, fraction_value, same]
      ring
    exact_mod_cast equal
  rw [nearest_eq, nearest_eq, nearestBits_congr d.fraction_pos e.fraction_pos cross]

/-- A decimal without digits denotes zero. -/
theorem nearest_zero {d : Decimal} (none : d.digits = 0) : d.nearest = 0 := by
  rw [nearest, if_pos (Or.inl none)]

theorem trim_value (d : Decimal) : d.trim.value = d.value := by
  fun_induction trim d with
  | case1 d ends ih =>
    have digits : d.digits = d.digits / 10 * 10 := by omega
    rw [ih, value, value, zpow_add₀ (by norm_num), zpow_one]
    conv_rhs => rw [digits]
    push_cast
    ring
  | case2 d ends => rfl

end Decimal

/-- A decimal of `units` that are `2 ^ places` to one. -/
theorem nearestBits_exact (units : Nat) {places : Nat} (positive : 0 < places) :
    nearestBits (Decimal.mk (units * Nat.pow 5 places) (-places)).fraction.1
      (Decimal.mk (units * Nat.pow 5 places) (-places)).fraction.2 = nearestBits units (2 ^ places) := by
  have power : Nat.pow 10 places = 2 ^ places * 5 ^ places := by rw [Nat.pow_eq, ← Nat.mul_pow]
  have negative : -(places : Int) < 0 := by omega
  simp only [Decimal.fraction, if_pos negative, Int.natAbs_neg, Int.natAbs_natCast, power, Nat.pow_eq]
  exact nearestBits_mul (by positivity)

/-- The real nearest to the exact value of a real is that real. -/
theorem nearest_exactDecimal {bits : Nat} (within : bits ≤ infinityBits) : (exactDecimal bits).nearest = bits := by
  have positive : 0 < unitBits := by decide
  rw [exactDecimal, Decimal.nearest_congr (Decimal.trim_value _), Decimal.nearest_eq, nearestBits_exact _ positive,
    ← unitsInOne_eq, nearestBits_unitsOfBits, min_eq_left within]

theorem nearest_of_onGrid? {bits : Nat} {exponent : Int} {d : Decimal} (found : onGrid? bits exponent = some d) :
    d.nearest = bits := by
  obtain ⟨digits, chosen, rfl⟩ := Option.map_eq_some_iff.mp found
  have reads := List.find?_some chosen
  exact eq_of_beq reads

/-- The shortest decimal of a real reads back as that real. -/
theorem nearest_shortest {bits : Nat} (within : bits ≤ infinityBits) : (shortest bits).nearest = bits := by
  unfold shortest
  rw [Decimal.nearest_congr (Decimal.trim_value _)]
  cases search : (List.range 17).findSome? fun (count : Nat) => onGrid? bits (leadingPlace bits - 1 - count) with
  | none =>
    rw [Option.getD_none]
    exact nearest_exactDecimal within
  | some d =>
    obtain ⟨count, -, found⟩ := List.exists_of_findSome?_eq_some search
    rw [Option.getD_some]
    exact nearest_of_onGrid? found

end PhyLang.Real
