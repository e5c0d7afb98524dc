namespace PhyLang.Real

/-- What a real stands for: nothing, one of the infinities, or a whole number of units. One unit is
the distance between the two smallest reals, 2^-1074, so reals and integers of any size are compared
exactly by comparing integers. -/
inductive Magnitude
  | undefined
  | below
  | units (count : Int)
  | above
  deriving DecidableEq, Repr, Inhabited

def unitBits : Nat := 1074

def unitsInOne : Nat := Nat.pow 2 unitBits

def fractionBits : Nat := 52

def fractions : Nat := Nat.pow 2 fractionBits

/-- The bit pattern of positive infinity: every pattern below it is a finite real without sign. -/
def infinityBits : Nat := 2047 * fractions

def signBit : Nat := Nat.pow 2 63

/-- The number of units in the finite real without sign that has this bit pattern. -/
def unitsOfBits (bits : Nat) : Nat :=
  let scale := bits / fractions
  let fraction := bits % fractions
  if scale = 0 then fraction else (fractions + fraction) * Nat.pow 2 (scale - 1)

def magnitude (x : Float) : Magnitude :=
  let pattern := x.toBits.toNat
  let bits := pattern % signBit
  let negative := signBit ≤ pattern
  if infinityBits < bits then .undefined
  else if bits = infinityBits then if negative then .below else .above
  else if negative then .units (-(unitsOfBits bits)) else .units (unitsOfBits bits)

def Magnitude.ofInt (n : Int) : Magnitude := .units (n * unitsInOne)

/-- The order of two values, or nothing when one of them is undefined. -/
def Magnitude.compare? : Magnitude → Magnitude → Option Ordering
  | .undefined, _ | _, .undefined => none
  | .below, .below | .above, .above => some .eq
  | .below, _ | _, .above => some .lt
  | .above, _ | _, .below => some .gt
  | .units a, .units b => some (compare a b)

/-- A quotient rounded to the nearest integer, a half to the even neighbour. -/
def roundHalfEven (num den : Nat) : Nat :=
  let quotient := num / den
  let twice := 2 * (num % den)
  if twice < den ∨ (twice = den ∧ quotient % 2 = 0) then quotient else quotient + 1

/-- The bit pattern of the real nearest to a fraction, a half going to the even pattern. A fraction
beyond the largest finite real gives `infinityBits` or a larger number. -/
def nearestBits (num den : Nat) : Nat :=
  let scaled := num * unitsInOne
  let excess := (scaled / den).log2 - fractionBits
  excess * fractions + roundHalfEven scaled (den * Nat.pow 2 excess)

def ofBits (negative : Bool) (bits : Nat) : Float :=
  Float.ofBits (UInt64.ofNat (bits + if negative then signBit else 0))

/-- The real nearest to an integer, or nothing when that lies beyond the largest finite real. -/
def ofInt? (n : Int) : Option Float :=
  let bits := nearestBits n.natAbs 1
  if bits < infinityBits then some (ofBits (n < 0) bits) else none

end PhyLang.Real
