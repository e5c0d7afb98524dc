import PhyLang.Real.Decimal

namespace PhyLang.Real

def leastPlaced : Int := -4

def leastScaled : Int := 16

/-- Digits with a point after the first of them, a lone digit without point, and an exponent of at
least two digits with its sign. -/
def scaledText (digits : List Char) (leading : Int) : String :=
  let mark := if leading < 0 then "e-" else "e+"
  let size := toString leading.natAbs
  let point := if digits.length ≤ 1 then "" else "."
  String.ofList (digits.take 1) ++ point ++ String.ofList (digits.drop 1) ++ mark ++
    (if size.length < 2 then "0" else "") ++ size

/-- Digits in place: at least one digit stands on either side of the point. -/
def placedText (digits : List Char) (exponent : Int) : String :=
  let tail := (-exponent).toNat
  let padded := List.replicate (tail + 1 - digits.length) '0' ++ digits ++ List.replicate exponent.toNat '0'
  let whole := padded.take (padded.length - tail)
  let rest := padded.drop (padded.length - tail)
  String.ofList whole ++ "." ++ (if rest.isEmpty then "0" else String.ofList rest)

/-- The text of a decimal without sign. Digits are written in place when the first of them stands
between the fourth place after the point and the sixteenth before it, and with an exponent
otherwise. -/
def Decimal.text (d : Decimal) : String :=
  let digits := (toString d.digits).toList
  let leading := d.exponent + digits.length - 1
  if leastPlaced ≤ leading ∧ leading < leastScaled then placedText digits d.exponent
  else scaledText digits leading

def text (x : Float) : String :=
  let pattern := x.toBits.toNat
  let bits := pattern % signBit
  let sign := if signBit ≤ pattern then "-" else ""
  if infinityBits < bits then "nan"
  else if bits = infinityBits then sign ++ "inf"
  else if bits = 0 then sign ++ "0.0"
  else sign ++ (shortest bits).text

end PhyLang.Real
