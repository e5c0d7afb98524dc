import Mathlib
import PhyLang.Real.Reading

namespace PhyLang.Real

open Float.Model (Format)

/-- The bits of a pattern that hold the exponent. -/
abbrev exponentField (b : BitVec 64) : BitVec 11 := @Float.Model.UnpackedFloat.unpackExponent Format.binary64 b

/-- The bits of a pattern that hold the fraction. -/
abbrev fractionField (b : BitVec 64) : BitVec 52 := @Float.Model.UnpackedFloat.unpackMantissa Format.binary64 b

theorem toNat_exponentField (b : BitVec 64) : (exponentField b).toNat = b.toNat / 2 ^ 52 % 2 ^ 11 := by
  simp only [exponentField, Float.Model.UnpackedFloat.unpackExponent, BitVec.toNat_cast,
    BitVec.extractLsb_toNat, Nat.shiftRight_eq_div_pow]

theorem toNat_fractionField (b : BitVec 64) : (fractionField b).toNat = b.toNat % 2 ^ 52 := by
  simp only [fractionField, Float.Model.UnpackedFloat.unpackMantissa, BitVec.toNat_cast,
    BitVec.extractLsb_toNat, Nat.shiftRight_eq_div_pow]
  norm_num

/-- A real consists of its sign and its pattern without sign. -/
theorem ofBits_split (x : Float) :
    ofBits (decide (signBit ≤ x.toBits.toNat)) (x.toBits.toNat % signBit) = x := by
  have bound := x.toBits.toNat_lt
  have sum : (x.toBits.toNat % signBit + if signBit ≤ x.toBits.toNat then signBit else 0) = x.toBits.toNat := by
    have value : signBit = 2 ^ 63 := rfl
    rw [value]
    split <;> omega
  have pattern : UInt64.ofNat x.toBits.toNat = x.toBits := UInt64.ofNat_toNat
  unfold ofBits
  simp only [decide_eq_true_eq]
  rw [sum, pattern, Float.ofBits_toBits]

/-- Every pattern beyond the one of infinity is that of the real that is no number. -/
theorem eq_undefined {x : Float} (beyond : infinityBits < x.toBits.toNat % signBit) : x = undefined := by
  obtain ⟨⟨bits, valid⟩⟩ := x
  change infinityBits < bits.toNat % signBit at beyond
  have value : infinityBits = 2047 * 2 ^ 52 := rfl
  have sign : signBit = 2 ^ 63 := rfl
  have same : bits.toBitVec.toNat = bits.toNat := UInt64.toNat_toBitVec bits
  rw [value, sign] at beyond
  have top : exponentField bits.toBitVec = -1#_ := by
    apply BitVec.eq_of_toNat_eq
    rw [toNat_exponentField, same]
    change _ = 2047
    omega
  have some : fractionField bits.toBitVec ≠ 0#_ := by
    intro none
    have zero := congrArg BitVec.toNat none
    rw [toNat_fractionField, same, BitVec.toNat_zero] at zero
    omega
  have packed := valid.eq_packedNaN top some
  have word : bits = 0x7ff8000000000000 := UInt64.toBitVec_inj.mp packed
  subst word
  exact (Float.ofBits_toBits ⟨⟨_, valid⟩⟩).symm

/-- The reals of each magnitude. -/
theorem magnitude_cases (x : Float) :
    (magnitude x = .undefined ∧ x = undefined) ∨ (magnitude x = .above ∧ x = ofBits false infinityBits) ∨
      (magnitude x = .below ∧ x = ofBits true infinityBits) ∨
      ((∃ count, magnitude x = .units count) ∧ x.toBits.toNat % signBit < infinityBits) := by
  have parts := ofBits_split x
  unfold magnitude
  simp only
  by_cases beyond : infinityBits < x.toBits.toNat % signBit
  · exact Or.inl ⟨if_pos beyond, eq_undefined beyond⟩
  · rw [if_neg beyond]
    by_cases infinite : x.toBits.toNat % signBit = infinityBits
    · rw [infinite] at parts
      rw [if_pos infinite]
      by_cases negative : signBit ≤ x.toBits.toNat
      · rw [decide_eq_true negative] at parts
        exact Or.inr (Or.inr (Or.inl ⟨if_pos negative, parts.symm⟩))
      · rw [decide_eq_false negative] at parts
        exact Or.inr (Or.inl ⟨if_neg negative, parts.symm⟩)
    · rw [if_neg infinite]
      refine Or.inr (Or.inr (Or.inr ⟨?_, by omega⟩))
      split <;> exact ⟨_, rfl⟩

end PhyLang.Real
