import PhyLang.Integer.Text
import PhyLang.Real.Reading
import PhyLang.Text.Hex
import PhyLang.Text.Scalar
import PhyLang.Token.Basic

namespace PhyLang.Token

def simpleEscape? : Char → Option Char
  | '\\' => some '\\'
  | '\'' => some '\''
  | '"' => some '"'
  | 'a' => some '\x07'
  | 'b' => some '\x08'
  | 'f' => some '\x0c'
  | 'n' => some '\n'
  | 'r' => some '\r'
  | 't' => some '\t'
  | 'v' => some '\x0b'
  | _ => none

def isOctal (c : Char) : Bool := '0' ≤ c && c ≤ '7'

def hexEscape? (width : Nat) (digits : List Char) : Option Char :=
  (Text.readHex? width 0 digits).bind fun read => Text.charOfCode? read.1

/-- What the text after a backslash stands for, and how many of its characters belong to the escape:
a letter or quote, the number of a character, or a carriage return, which is passed over. The escape
by name, `\N{NAME}`, is refused whatever the name is, while the host takes every name of Unicode. A
number that is half of a pair gives the replacement character, as in `Text.charOfCode?`. -/
def escape? : List Char → Option (List Char × Nat)
  | [] => some (['\\'], 0)
  | c :: rest =>
    if c = 'x' then (hexEscape? 2 rest).map fun meant => ([meant], 3)
    else if c = 'u' then (hexEscape? 4 rest).map fun meant => ([meant], 5)
    else if c = 'U' then (hexEscape? 8 rest).map fun meant => ([meant], 9)
    else if c = 'N' ∨ c = '\x00' then none
    else if c = '\r' then some ([], 1)
    else if isOctal c then
      let digits := c :: (rest.take 2).takeWhile isOctal
      some ([Char.ofNat (digits.foldl (fun value d => 8 * value + (d.toNat - 0x30)) 0)], digits.length)
    else
      match simpleEscape? c with
      | some meant => some ([meant], 1)
      | none => some (['\\', c], 1)

/-- The characters that the inside of a string stands for, if it is well formed. A backslash that
begins no known escape stands for itself; a carriage return or a null cannot. -/
def unescape? : List Char → Option (List Char)
  | [] => some []
  | c :: rest =>
    if c = '\\' then
      match escape? rest with
      | some (meant, width) => (unescape? (rest.drop width)).map (meant ++ ·)
      | none => none
    else if c = '\r' ∨ c = '\x00' then none
    else (unescape? rest).map (c :: ·)
termination_by inside => inside.length
decreasing_by all_goals simp only [List.length_drop, List.length_cons]; omega

def stringValue? (text : List Char) : Option String :=
  (unescape? ((text.drop 1).dropLast)).map String.ofList

def intValue (text : List Char) : Int :=
  let (negative, digits) := Integer.splitSign text
  Integer.signed negative (Text.digitsValue 0 digits)

def realValue (text : List Char) : Float :=
  Real.ofDecimal false ((Real.readDecimal? text).getD ⟨0, 0⟩)

inductive LiteralFault
  | string
  | tooLong
  deriving DecidableEq, Repr

/-- What is wrong with the literal that a token is: an escape that is malformed, or too many digits. -/
def literalFault? (token : Token) : Option LiteralFault :=
  match token.kind with
  | .string => if (stringValue? token.text).isNone then some .string else none
  | .int | .bound =>
    if Integer.digitLimit < (Integer.splitSign token.text).2.length then some .tooLong else none
  | _ => none

end PhyLang.Token
