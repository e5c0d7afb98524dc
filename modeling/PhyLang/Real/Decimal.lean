import PhyLang.Real.Magnitude

namespace PhyLang.Real

/-- The number `digits · 10 ^ exponent`. -/
structure Decimal where
  digits : Nat
  exponent : Int
  deriving DecidableEq, Repr, Inhabited

namespace Decimal

def fraction (d : Decimal) : Nat × Nat :=
  if d.exponent < 0 then (d.digits, Nat.pow 10 d.exponent.natAbs)
  else (d.digits * Nat.pow 10 d.exponent.natAbs, 1)

/-- The bit pattern of the real nearest to a decimal. The first two cases are decimals so far out of
range that they need not be expanded: below half a unit, and above the largest real. -/
def nearest (d : Decimal) : Nat :=
  if d.digits = 0 ∨ d.digits.log2 + 3 * d.exponent < -(unitBits + 3 : Int) then 0
  else if 309 < d.exponent then infinityBits
  else min (nearestBits d.fraction.1 d.fraction.2) infinityBits

def trim (d : Decimal) : Decimal :=
  if d.digits ≠ 0 ∧ d.digits % 10 = 0 then trim ⟨d.digits / 10, d.exponent + 1⟩ else d
termination_by d.digits
decreasing_by omega

end Decimal

/-- The exact value of a bit pattern as a decimal: a unit is `5 ^ 1074` over `10 ^ 1074`. -/
def exactDecimal (bits : Nat) : Decimal :=
  Decimal.trim ⟨unitsOfBits bits * Nat.pow 5 unitBits, -unitBits⟩

/-- A bit pattern measured in steps of `10 ^ exponent`, as a fraction. -/
def steps (bits : Nat) (exponent : Int) : Nat × Nat :=
  if exponent < 0 then (unitsOfBits bits * Nat.pow 10 exponent.natAbs, unitsInOne)
  else (unitsOfBits bits, unitsInOne * Nat.pow 10 exponent.natAbs)

/-- The multiple of `10 ^ exponent` that reads back as a bit pattern and is nearest to it, if any.
Only the two neighbours of the value on this grid can be that. -/
def onGrid? (bits : Nat) (exponent : Int) : Option Decimal :=
  let measure := steps bits exponent
  let low := measure.1 / measure.2
  let near := roundHalfEven measure.1 measure.2
  let reads := fun digits => Decimal.nearest ⟨digits, exponent⟩ == bits
  ([near, low, low + 1].find? reads).map (⟨·, exponent⟩)

/-- The least `e` with the value of a bit pattern below `10 ^ e`. -/
def leadingPlace (bits : Nat) : Int :=
  let guess := ((unitsOfBits bits).log2 - unitBits : Int) * 30103 / 100000
  let isBelow := fun (e : Int) => (steps bits e).1 < (steps bits e).2
  ([guess - 1, guess, guess + 1].find? isBelow).getD (guess + 2)

/-- The decimal with the fewest digits that reads back as a bit pattern, and among those the one
nearest to it. -/
def shortest (bits : Nat) : Decimal :=
  let place := leadingPlace bits
  (((List.range 17).findSome? fun (count : Nat) => onGrid? bits (place - 1 - count)).getD (exactDecimal bits)).trim

end PhyLang.Real
