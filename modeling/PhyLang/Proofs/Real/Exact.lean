import Mathlib
import PhyLang.Proofs.Real.Bits
import PhyLang.Proofs.Real.Nearest

namespace PhyLang.Real

open Float.Model (UnpackedFloat Format)
open Float.Model.UnpackedFloat (Sign)

/-- The numbers that reals stand for: the rational ones, and an infinity at either end. -/
abbrev Exact := WithBot (WithTop ℚ)

/-- A rational number among the numbers that reals stand for. -/
def Exact.ofRat (q : ℚ) : Exact := ((q : WithTop ℚ) : WithBot (WithTop ℚ))

theorem Exact.ofRat_lt {p q : ℚ} : ofRat p < ofRat q ↔ p < q := by
  rw [ofRat, ofRat, WithBot.coe_lt_coe, WithTop.coe_lt_coe]

theorem Exact.ofRat_inj {p q : ℚ} : ofRat p = ofRat q ↔ p = q := by
  rw [ofRat, ofRat, WithBot.coe_inj, WithTop.coe_inj]

theorem Exact.bot_lt_ofRat (q : ℚ) : ⊥ < ofRat q := WithBot.bot_lt_coe _

theorem Exact.ofRat_lt_top (q : ℚ) : ofRat q < ⊤ := WithBot.coe_lt_coe.mpr (WithTop.coe_lt_top q)

/-- The number with a given sign, significand and exponent; of what is no number there is none. -/
def numberOf : UnpackedFloat → Option Exact
  | .notANumber => none
  | .infinity .negative => some ⊥
  | .infinity .positive => some ⊤
  | .zero _ => some (.ofRat 0)
  | .finite sign significand exponent _ => some (.ofRat (sign.apply significand * 2 ^ exponent))

/-- The number that a real stands for. -/
def number? (x : Float) : Option Exact := numberOf x.toModel.unpack

/-- Only the real that is no number stands for none. -/
theorem number?_eq_none {x : Float} : number? x = none ↔ x.isNaN := by
  rw [number?, Float.isNaN, Float.Model.isNaN]
  cases x.toModel.unpack with
  | notANumber => exact ⟨fun _ => rfl, fun _ => rfl⟩
  | infinity sign => cases sign <;> exact ⟨nofun, nofun⟩
  | zero | finite => exact ⟨nofun, nofun⟩

/-- The number that a magnitude stands for. -/
def Magnitude.number? : Magnitude → Option Exact
  | .undefined => none
  | .below => some ⊥
  | .units count => some (.ofRat (count / unitsInOne))
  | .above => some ⊤

section Fields

/-- The bit of a pattern that holds the sign. -/
abbrev signField (b : BitVec 64) : BitVec 1 := @UnpackedFloat.unpackSign Format.binary64 b

theorem toNat_signField (b : BitVec 64) : (signField b).toNat = b.toNat / 2 ^ 63 := by
  have bound := b.isLt
  simp only [signField, UnpackedFloat.unpackSign, BitVec.toNat_cast, BitVec.extractLsb_toNat,
    Nat.shiftRight_eq_div_pow]
  omega

variable (b : BitVec 64)

theorem sign_eq : Sign.ofBitVec (signField b) = if signBit ≤ b.toNat then .negative else .positive := by
  have field := toNat_signField b
  have bound := b.isLt
  have value : signBit = 2 ^ 63 := rfl
  by_cases negative : signBit ≤ b.toNat
  · have set : signField b ≠ 0#1 := by
      rw [Ne, ← BitVec.toNat_inj, field, BitVec.toNat_zero]
      rw [value] at negative
      omega
    rw [if_pos negative, Sign.ofBitVec, if_neg set]
  · have clear : signField b = 0#1 := by
      rw [← BitVec.toNat_inj, field, BitVec.toNat_zero]
      rw [value] at negative
      omega
    rw [if_neg negative, Sign.ofBitVec, if_pos clear]

theorem exponentField_eq_ones : exponentField b = -1#_ ↔ infinityBits ≤ b.toNat % signBit := by
  have field := toNat_exponentField b
  have value : infinityBits = 2047 * 2 ^ 52 := rfl
  have sign : signBit = 2 ^ 63 := rfl
  have ones : (-1#11).toNat = 2047 := rfl
  rw [← BitVec.toNat_inj, field, value, sign, ones]
  omega

theorem toNat_exponentField_eq : (exponentField b).toNat = b.toNat % signBit / fractions := by
  have value : fractions = 2 ^ 52 := rfl
  have sign : signBit = 2 ^ 63 := rfl
  rw [toNat_exponentField, value, sign]
  omega

theorem toNat_fractionField_eq : (fractionField b).toNat = b.toNat % signBit % fractions := by
  have value : fractions = 2 ^ 52 := rfl
  have sign : signBit = 2 ^ 63 := rfl
  rw [toNat_fractionField, value, sign]
  omega

theorem mod_signBit_lt : b.toNat % signBit < 2048 * fractions := by
  have positive : 0 < signBit := by decide
  exact Nat.mod_lt _ positive

/-- A pattern from that of infinity on is infinity or no number. -/
theorem unpack_of_ones (large : infinityBits ≤ b.toNat % signBit) :
    UnpackedFloat.unpack .binary64 b =
      if b.toNat % signBit = infinityBits then .infinity (Sign.ofBitVec (signField b)) else .notANumber := by
  have none : fractionField b = 0#_ ↔ b.toNat % signBit = infinityBits := by
    have field := toNat_fractionField_eq b
    have bound := mod_signBit_lt b
    have value : infinityBits = 2047 * fractions := rfl
    have width : fractions = 2 ^ 52 := rfl
    rw [← BitVec.toNat_inj, field, BitVec.toNat_zero]
    generalize b.toNat % signBit = bits at *
    rw [value, width] at large
    rw [value, width]
    rw [width] at bound
    omega
  rw [UnpackedFloat.unpack]
  simp only
  rw [if_pos ((exponentField_eq_ones b).mpr large)]
  by_cases infinite : b.toNat % signBit = infinityBits
  · rw [if_pos (none.mpr infinite), if_pos infinite]
  · rw [if_neg (mt none.mp infinite), if_neg infinite]

/-- A significand with an exponent stands for a number of units. -/
theorem ofRat_units (sign : Sign) {significand units : Nat} {exponent : Int} {scale : Nat}
    (counted : units = significand * 2 ^ scale) (scaled : exponent + unitBits = scale) :
    Exact.ofRat (sign.apply significand * 2 ^ exponent) = .ofRat ((sign.apply units : Int) / unitsInOne) := by
  have one : (unitsInOne : ℚ) = 2 ^ unitBits := by
    rw [unitsInOne_eq]
    push_cast
    rfl
  have positive : (2 : ℚ) ^ unitBits ≠ 0 := by positivity
  have power : (2 : ℚ) ^ exponent * 2 ^ unitBits = 2 ^ scale := by
    rw [← zpow_natCast, ← zpow_natCast, ← zpow_add₀ (by norm_num), scaled]
  rw [Exact.ofRat_inj, one, eq_div_iff positive, mul_assoc, power, counted]
  cases sign
  · simp only [Sign.apply]
    push_cast
    ring
  · simp only [Sign.apply]
    push_cast
    ring

/-- A pattern below that of infinity stands for as many units as it is counted for. -/
theorem numberOf_unpack (small : b.toNat % signBit < infinityBits) :
    numberOf (UnpackedFloat.unpack .binary64 b) =
      some (.ofRat (((Sign.ofBitVec (signField b)).apply (unitsOfBits (b.toNat % signBit)) : Int) / unitsInOne)) := by
  have exponent := toNat_exponentField_eq b
  have fraction := toNat_fractionField_eq b
  have bias : (Format.exponentBias .binary64 : Int) = 1023 := rfl
  have units : unitBits = 1074 := rfl
  have notOnes : exponentField b ≠ -1#_ := mt (exponentField_eq_ones b).mp (by omega)
  rw [UnpackedFloat.unpack]
  simp only
  rw [if_neg notOnes]
  by_cases subnormal : exponentField b = 0#_
  · have least : b.toNat % signBit / fractions = 0 := by
      rw [← exponent, subnormal, BitVec.toNat_zero]
    have counted : unitsOfBits (b.toNat % signBit) = (fractionField b).toNat * 2 ^ 0 := by
      rw [unitsOfBits, if_pos least, fraction, pow_zero, Nat.mul_one]
    rw [if_pos subnormal]
    by_cases zero : fractionField b = 0#_
    · rw [dif_pos zero, numberOf, counted, zero, BitVec.toNat_zero, Nat.zero_mul]
      have nothing : (Sign.ofBitVec (signField b)).apply ((0 : Nat) : Int) = 0 := by
        cases Sign.ofBitVec (signField b) <;> rfl
      rw [nothing, Int.cast_zero, zero_div]
    · rw [dif_neg zero, numberOf, exponent, least]
      exact congrArg some (ofRat_units _ counted (by rw [units]; rfl))
  · have scale : b.toNat % signBit / fractions ≠ 0 := by
      rw [← exponent]
      exact fun least => subnormal (BitVec.eq_of_toNat_eq least)
    have leading : (1#1 ++ fractionField b).toNat = fractions + (fractionField b).toNat := by
      have low : (fractionField b).toNat < 2 ^ 52 := (fractionField b).isLt
      rw [BitVec.toNat_append, BitVec.toNat_ofNat, ← Nat.shiftLeft_add_eq_or_of_lt low]
      rfl
    have counted : unitsOfBits (b.toNat % signBit) =
        (1#1 ++ fractionField b).toNat * 2 ^ (b.toNat % signBit / fractions - 1) := by
      rw [leading, fraction, unitsOfBits, if_neg scale]
      rfl
    rw [if_neg subnormal, numberOf, exponent]
    exact congrArg some (ofRat_units _ counted (by rw [units]; omega))

end Fields

theorem unpack_eq (x : Float) : x.toModel.unpack = UnpackedFloat.unpack .binary64 x.toBits.toBitVec := rfl

/-- The units of a real are counted exactly. -/
theorem number?_magnitude (x : Float) : (magnitude x).number? = number? x := by
  have same : x.toBits.toBitVec.toNat = x.toBits.toNat := UInt64.toNat_toBitVec _
  have sign := sign_eq x.toBits.toBitVec
  rw [same] at sign
  rw [number?, unpack_eq, magnitude]
  by_cases special : infinityBits ≤ x.toBits.toNat % signBit
  · rw [unpack_of_ones _ (by rwa [same]), same, sign]
    by_cases infinite : x.toBits.toNat % signBit = infinityBits
    · rw [if_pos infinite, if_neg (by omega), if_pos infinite]
      by_cases negative : signBit ≤ x.toBits.toNat
      · rw [if_pos negative, if_pos negative]
        rfl
      · rw [if_neg negative, if_neg negative]
        rfl
    · have beyond : infinityBits < x.toBits.toNat % signBit := by omega
      rw [if_pos beyond, if_neg infinite]
      rfl
  · rw [numberOf_unpack _ (by rw [same]; omega), same, sign, if_neg (by omega), if_neg (by omega)]
    by_cases negative : signBit ≤ x.toBits.toNat
    · rw [if_pos negative, if_pos negative]
      rfl
    · rw [if_neg negative, if_neg negative]
      rfl

theorem unitsOfBits_injective : Function.Injective unitsOfBits :=
  fun a b same => by rw [← nearestBits_unitsOfBits a, same, nearestBits_unitsOfBits]

/-- There are two reals of no unit. -/
theorem magnitude_eq_zero {x : Float} : magnitude x = .units 0 ↔ x = 0.0 ∨ x = -0.0 := by
  constructor
  · intro zero
    have parts := ofBits_split x
    have none : x.toBits.toNat % signBit = 0 := by
      apply unitsOfBits_injective
      change _ = 0
      unfold magnitude at zero
      simp only at zero
      split at zero
      · cases zero
      · split at zero
        · split at zero <;> cases zero
        · split at zero
          all_goals
            have counted := Magnitude.units.inj zero
            omega
    rw [none] at parts
    by_cases negative : signBit ≤ x.toBits.toNat
    · rw [decide_eq_true negative] at parts
      exact Or.inr parts.symm
    · rw [decide_eq_false negative] at parts
      exact Or.inl parts.symm
  · rintro (rfl | rfl) <;> decide +kernel

end PhyLang.Real
