import PhyLang.Text.Blank
import PhyLang.Text.Digit

namespace PhyLang.Integer

/-- The greatest number of digits that is converted between integers and text. -/
def digitLimit : Nat := 4300

/-- The least number without sign that has too many digits to be written. -/
def unwritable : Nat := Nat.pow 10 digitLimit

def isWritable (n : Int) : Bool := n.natAbs < unwritable

inductive ReadError
  | malformed
  | tooLong (digits : Nat)
  deriving DecidableEq, Repr

/-- Whether each underscore of a word stands between two digits; `afterDigit` tells whether a digit
came just before the word. -/
def underscoresBetweenDigits (afterDigit : Bool) : List Char → Bool
  | [] => true
  | '_' :: rest => afterDigit && (rest.head?.map Text.isDigit).getD false && underscoresBetweenDigits false rest
  | c :: rest => underscoresBetweenDigits (Text.isDigit c) rest

def splitSign : List Char → Bool × List Char
  | '-' :: rest => (true, rest)
  | '+' :: rest => (false, rest)
  | word => (false, word)

def signed (negative : Bool) (size : Nat) : Int := if negative then -size else size

/-- The integer that a text denotes. Blanks may surround the digits, a sign may stand before them
and single underscores between them, and they may be of any script. -/
def read (text : List Char) : Except ReadError Int :=
  let (negative, word) := splitSign (Text.trim Text.isPadding text)
  let number := word.takeWhile fun c => Text.isDigit c || c == '_'
  let digits := number.filter (· != '_')
  if digits.isEmpty || !underscoresBetweenDigits false number then .error .malformed
  else if digitLimit < digits.length then .error (.tooLong digits.length)
  else if number.length < word.length then .error .malformed
  else .ok (signed negative (Text.digitsValue 0 digits))

end PhyLang.Integer
