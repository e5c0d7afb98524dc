import PhyLang.Integer.Text
import PhyLang.Real.Decimal

namespace PhyLang.Real

def undefined : Float := Float.ofBits 0x7ff8000000000000

def ofDecimal (negative : Bool) (d : Decimal) : Float := ofBits negative d.nearest

/-- Digits, then optionally a point and more digits: the decimal that they write, and the rest. -/
def readPlaces? (word : List Char) : Option (Decimal × List Char) :=
  let whole := word.takeWhile Text.isDigit
  match word.dropWhile Text.isDigit with
  | '.' :: rest =>
    let places := rest.takeWhile Text.isDigit
    if whole.isEmpty && places.isEmpty then none
    else some (⟨Text.digitsValue 0 (whole ++ places), -places.length⟩, rest.dropWhile Text.isDigit)
  | rest => if whole.isEmpty then none else some (⟨Text.digitsValue 0 whole, 0⟩, rest)

/-- The exponent that a word writes in full; no word is exponent zero. -/
def readExponent? : List Char → Option Int
  | [] => some 0
  | mark :: rest =>
    let (negative, digits) := Integer.splitSign rest
    if (mark = 'e' ∨ mark = 'E') ∧ digits ≠ [] ∧ digits.all Text.isDigit then
      some (Integer.signed negative (Text.digitsValue 0 digits))
    else none

def readDecimal? (word : List Char) : Option Decimal := do
  let (places, rest) ← readPlaces? word
  let exponent ← readExponent? rest
  return ⟨places.digits, places.exponent + exponent⟩

def readUnsigned? (negative : Bool) (word : List Char) : Option Float :=
  let name := String.ofList (word.map Char.toLower)
  if name = "inf" ∨ name = "infinity" then some (ofBits negative infinityBits)
  else if name = "nan" then some undefined
  else (readDecimal? word).map (ofDecimal negative)

/-- The real that a text writes by digits with an optional point and an optional exponent, or by a
word for an infinity or for no number. It is the one nearest to the number that is written. -/
def read? (text : List Char) : Option Float :=
  let word := Text.trim Text.isPadding text
  if Integer.underscoresBetweenDigits false word then
    let (negative, number) := Integer.splitSign (word.filter (· != '_'))
    readUnsigned? negative number
  else none

end PhyLang.Real
