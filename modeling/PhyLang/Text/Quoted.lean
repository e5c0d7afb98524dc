import PhyLang.Text.Hex
import PhyLang.Text.Printable

namespace PhyLang.Text

/-- The form of one character between two quotes of a given kind. -/
def quoteChar (mark c : Char) : List Char :=
  if c = mark ∨ c = '\\' then ['\\', c]
  else if c = '\n' then ['\\', 'n']
  else if c = '\r' then ['\\', 'r']
  else if c = '\t' then ['\\', 't']
  else if isPrintable c then [c]
  else if c.toNat < 0x100 then '\\' :: 'x' :: hexDigits 2 c.toNat
  else if c.toNat < 0x10000 then '\\' :: 'u' :: hexDigits 4 c.toNat
  else '\\' :: 'U' :: hexDigits 8 c.toNat

def quoteMark (word : List Char) : Char :=
  if '\'' ∈ word ∧ '"' ∉ word then '"' else '\''

/-- The quoted form of a text, as error messages and lists show it. The quotes are single ones
unless the text holds a single quote and no double one; what cannot be printed is written by its
code point. -/
def quote (text : String) : String :=
  let word := text.toList
  let mark := quoteMark word
  String.ofList (mark :: word.flatMap (quoteChar mark) ++ [mark])

end PhyLang.Text
