import PhyLang.Text.Digit
import PhyLang.Token.Basic

namespace PhyLang.Token

def isNameStart (c : Char) : Bool := c.isAlpha || c == '_'

def isNamePart (c : Char) : Bool := c.isAlphanum || c == '_'

def nameLexeme : List Char → List Char
  | c :: rest => if isNameStart c then c :: rest.takeWhile isNamePart else []
  | [] => []

def intLexeme (input : List Char) : List Char := input.takeWhile Text.isDigit

/-- The real at the start of a text: digits, a point that begins no range, and more digits. -/
def realLexeme (input : List Char) : List Char :=
  let whole := intLexeme input
  match whole, input.drop whole.length with
  | [], _ | _, '.' :: '.' :: _ => []
  | _, '.' :: rest => whole ++ '.' :: intLexeme rest
  | _, _ => []

/-- The range bound at the start of a text: digits that may have a minus sign. -/
def boundLexeme : List Char → List Char
  | '-' :: rest => if (intLexeme rest).isEmpty then [] else '-' :: intLexeme rest
  | input => intLexeme input

/-- A string up to and with its closing quote, from the place after its opening quote on. A backslash
takes the next character with it, and no line end may stand in a string. -/
def stringTail? : List Char → Option (List Char)
  | '"' :: _ => some ['"']
  | '\\' :: c :: rest => if c = '\n' then none else (stringTail? rest).map ('\\' :: c :: ·)
  | c :: rest => if c = '\\' ∨ c = '\n' then none else (stringTail? rest).map (c :: ·)
  | [] => none

def stringLexeme : List Char → List Char
  | '"' :: rest => ((stringTail? rest).map ('"' :: ·)).getD []
  | _ => []

/-- The kind of a name: it is a word where that word is looked for. -/
def nameKind (accepts : Kind → Bool) (name : List Char) : Kind :=
  match Word.all.find? fun w => w.text.toList == name && accepts (.word w) with
  | some w => .word w
  | none => .name

/-- The words and marks, those with more characters first where one begins another. -/
def fixedKinds : List Kind := Word.all.map .word ++ Mark.all.map .mark

def fixedText : Kind → List Char
  | .word w => w.text.toList
  | .mark m => m.text.toList
  | _ => []

def fixedLexeme? (accepts : Kind → Bool) (input : List Char) : Option (Kind × List Char) :=
  (fixedKinds.find? fun kind => accepts kind && (fixedText kind).isPrefixOf input).map
    fun kind => (kind, fixedText kind)

/-- The token at the start of a text: among the kinds that are looked for, the first that fits of
reals, names, strings, range bounds, integers, and then the words and marks. Where names are looked
for, a word is found as a name and never as the beginning of one. -/
def lexeme? (accepts : Kind → Bool) (input : List Char) : Option (Kind × List Char) :=
  if accepts .real ∧ realLexeme input ≠ [] then some (.real, realLexeme input)
  else if accepts .name ∧ nameLexeme input ≠ [] then some (nameKind accepts (nameLexeme input), nameLexeme input)
  else if accepts .string ∧ stringLexeme input ≠ [] then some (.string, stringLexeme input)
  else if accepts .bound ∧ boundLexeme input ≠ [] then some (.bound, boundLexeme input)
  else if accepts .int ∧ intLexeme input ≠ [] then some (.int, intLexeme input)
  else fixedLexeme? accepts input

end PhyLang.Token
