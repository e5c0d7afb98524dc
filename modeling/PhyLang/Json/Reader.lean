import PhyLang.Json.Basic
import PhyLang.Real.Reading
import PhyLang.Text.Scalar

namespace PhyLang.Json

inductive Fault
  | expectedValue
  | expectedComma
  | expectedColon
  | expectedName
  | extraData
  | unterminated
  | controlCharacter
  | escape
  | unicodeEscape
  | byteOrderMark
  deriving DecidableEq, Repr

def Fault.text : Fault → String
  | .expectedValue => "Expecting value"
  | .expectedComma => "Expecting ',' delimiter"
  | .expectedColon => "Expecting ':' delimiter"
  | .expectedName => "Expecting property name enclosed in double quotes"
  | .extraData => "Extra data"
  | .unterminated => "Unterminated string starting at"
  | .controlCharacter => "Invalid control character at"
  | .escape => "Invalid \\escape"
  | .unicodeEscape => "Invalid \\uXXXX escape"
  | .byteOrderMark => "Unexpected UTF-8 BOM (decode using utf-8-sig)"

/-- Why reading stopped, and what was left of the document there. -/
inductive Stop
  | malformed (fault : Fault) (left : List Char)
  | tooLong (digits : Nat)
  deriving DecidableEq, Repr

def isGap (c : Char) : Bool := c == ' ' || c == '\t' || c == '\n' || c == '\r'

def skipGap (input : List Char) : List Char := input.dropWhile isGap

def unescape? : Char → Option Char
  | '"' => some '"'
  | '\\' => some '\\'
  | '/' => some '/'
  | 'b' => some '\x08'
  | 'f' => some '\x0c'
  | 'n' => some '\n'
  | 'r' => some '\r'
  | 't' => some '\t'
  | _ => none

def hexUnit? (a b c d : Char) : Option Nat := (Text.readHex? 4 0 [a, b, c, d]).map (·.1)

/-- The character with a number of four hexadecimal digits. A half of a pair that comes without its
partner gives the replacement character, as in `Text.charOfCode?`, while the host keeps it. -/
def unitChar (unit : Nat) : Char := (Text.charOfCode? unit).getD '\ufffd'

/-- The rest of a JSON string after its opening quote, in front of which the document is `opening`;
`done` holds the characters read so far, last one first. -/
def readString (opening done input : List Char) : Except Stop (String × List Char) :=
  match input with
  | [] | ['\\'] => .error (.malformed .unterminated opening)
  | '"' :: rest => .ok (String.ofList done.reverse, rest)
  | '\\' :: 'u' :: a :: b :: c :: d :: next :: rest =>
    match hexUnit? a b c d with
    | none => .error (.malformed .unicodeEscape input.tail)
    | some unit =>
      match _ : rest with
      | 'u' :: a' :: b' :: c' :: d' :: following :: rest' =>
        if Text.isLeadingHalf unit ∧ next = '\\' then
          match hexUnit? a' b' c' d' with
          | none => .error (.malformed .unicodeEscape rest)
          | some unit' =>
            if Text.isTrailingHalf unit' then readString opening (Text.joinHalves unit unit' :: done) (following :: rest')
            else readString opening (unitChar unit :: done) (next :: rest)
        else readString opening (unitChar unit :: done) (next :: rest)
      | _ => readString opening (unitChar unit :: done) (next :: rest)
  | '\\' :: 'u' :: rest => .error (.malformed .unicodeEscape ('u' :: rest))
  | '\\' :: c :: rest =>
    match unescape? c with
    | none => .error (.malformed .escape input)
    | some meant => readString opening (meant :: done) rest
  | c :: rest =>
    if c.toNat < 0x20 then .error (.malformed .controlCharacter input)
    else readString opening (c :: done) rest
termination_by input.length
decreasing_by all_goals simp_all; try omega

/-- The digits of a whole number: a lone zero, or digits that do not start with zero. -/
def wholeDigits : List Char → List Char
  | '0' :: _ => ['0']
  | input => input.takeWhile Char.isDigit

def fractionPart : List Char → List Char
  | '.' :: rest => if (rest.takeWhile Char.isDigit).isEmpty then [] else '.' :: rest.takeWhile Char.isDigit
  | _ => []

def exponentPart : List Char → List Char
  | mark :: rest =>
    let sign := rest.take 1 |>.filter fun c => c == '-' || c == '+'
    let digits := (rest.drop sign.length).takeWhile Char.isDigit
    if (mark = 'e' ∨ mark = 'E') ∧ digits ≠ [] then mark :: (sign ++ digits) else []
  | [] => []

/-- A number: an integer unless it has a fraction or an exponent. -/
def readNumber (input : List Char) : Except Stop (Json × List Char) :=
  let sign := input.take 1 |>.filter (· == '-')
  let afterSign := input.drop sign.length
  let whole := wholeDigits afterSign
  let afterWhole := afterSign.drop whole.length
  let fraction := fractionPart afterWhole
  let afterFraction := afterWhole.drop fraction.length
  let exponent := exponentPart afterFraction
  if whole.isEmpty then .error (.malformed .expectedValue input)
  else if fraction.isEmpty && exponent.isEmpty then
    if Integer.digitLimit < whole.length then .error (.tooLong whole.length)
    else .ok (.int (Integer.signed (!sign.isEmpty) (Text.digitsValue 0 whole)), afterWhole)
  else
    .ok (.real ((Real.read? (sign ++ whole ++ fraction ++ exponent)).getD Real.undefined),
      afterFraction.drop exponent.length)

/-- The words that are values. Besides those of the standard, `NaN`, `Infinity` and `-Infinity` are
read. -/
def wordValues : List (List Char × Json) :=
  [("null".toList, .null), ("true".toList, .bool true), ("false".toList, .bool false),
   ("NaN".toList, .real Real.undefined), ("Infinity".toList, .real (Real.ofBits false Real.infinityBits)),
   ("-Infinity".toList, .real (Real.ofBits true Real.infinityBits))]

def readScalar (input : List Char) : Except Stop (Json × List Char) :=
  match wordValues.find? (·.1.isPrefixOf input) with
  | some (word, value) => .ok (value, input.drop word.length)
  | none => readNumber input

mutual

/-- A value at the start of the document's rest. Each step of reading takes one unit of `fuel`. -/
def readValue : (fuel : Nat) → List Char → Except Stop (Json × List Char)
  | _ + 1, '"' :: rest => do
    let (s, rest') ← readString ('"' :: rest) [] rest
    return (.str s, rest')
  | fuel + 1, '[' :: rest =>
    match skipGap rest with
    | ']' :: rest' => .ok (.arr [], rest')
    | rest' => do
      let (items, rest'') ← readItems fuel rest'
      return (.arr items, rest'')
  | fuel + 1, '\x7b' :: rest =>
    match skipGap rest with
    | '\x7d' :: rest' => .ok (.obj [], rest')
    | rest' => do
      let (fields, rest'') ← readFields fuel [] rest'
      return (.obj fields, rest'')
  | _, input => readScalar input

def readItems : (fuel : Nat) → List Char → Except Stop (List Json × List Char)
  | 0, input => .error (.malformed .expectedValue input)
  | fuel + 1, input => do
    let (item, rest) ← readValue fuel input
    match skipGap rest with
    | ']' :: rest' => return ([item], rest')
    | ',' :: rest' =>
      let (items, rest'') ← readItems fuel (skipGap rest')
      return (item :: items, rest'')
    | rest' => throw (.malformed .expectedComma rest')

/-- The fields of an object and its closing bracket, added to the fields before them. Of several
fields with one name the last counts. -/
def readFields : (fuel : Nat) → List (String × Json) → List Char → Except Stop (List (String × Json) × List Char)
  | fuel + 1, fields, '"' :: input => do
    let (name, rest) ← readString ('"' :: input) [] input
    match skipGap rest with
    | ':' :: rest' =>
      let (value, rest'') ← readValue fuel (skipGap rest')
      let fields := setField name value fields
      match skipGap rest'' with
      | '\x7d' :: left => return (fields, left)
      | ',' :: left => readFields fuel fields (skipGap left)
      | left => throw (.malformed .expectedComma left)
    | rest' => throw (.malformed .expectedColon rest')
  | _, _, input => .error (.malformed .expectedName input)

end

/-- The value of a whole document. Each level of reading passes at least one of two characters, so
twice the length of the document is fuel enough. -/
def readDocument (input : List Char) : Except Stop Json :=
  match input with
  | '\ufeff' :: _ => .error (.malformed .byteOrderMark input)
  | _ => do
    let (value, rest) ← readValue (2 * input.length + 2) (skipGap input)
    match skipGap rest with
    | [] => return value
    | rest' => throw (.malformed .extraData rest')

/-- The description of a stop: a malformed document is reported with the line, the column and the
number of characters before the place. -/
def Stop.text (input : List Char) : Stop → String
  | .malformed fault left =>
    let before := input.take (input.length - left.length)
    let line := before.count '\n' + 1
    let column := (before.reverse.takeWhile (· != '\n')).length + 1
    s!"{fault.text}: line {line} column {column} (char {before.length})"
  | .tooLong digits =>
    s!"Exceeds the limit ({Integer.digitLimit} digits) for integer string conversion: value has {digits} digits; " ++
      "use sys.set_int_max_str_digits() to increase the limit"

end PhyLang.Json
