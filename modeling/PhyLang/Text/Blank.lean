namespace PhyLang.Text

/-- The white space of Unicode, together with the four information separators. -/
def isBlank (c : Char) : Bool :=
  let point := c.toNat
  (0x9 ≤ point && point ≤ 0xd) || (0x1c ≤ point && point ≤ 0x20) || point == 0x85 ||
    point == 0xa0 || point == 0x1680 || (0x2000 ≤ point && point ≤ 0x200a) ||
    point == 0x2028 || point == 0x2029 || point == 0x202f || point == 0x205f || point == 0x3000

/-- The blanks that may surround a number: all white space but the information separators. -/
def isPadding (c : Char) : Bool :=
  isBlank c && !(0x1c ≤ c.toNat && c.toNat ≤ 0x1f)

/-- The blanks that may stand between two tokens. -/
def isSeparator (c : Char) : Bool :=
  c == ' ' || c == '\t' || c == '\x0c' || c == '\r' || c == '\n'

def trim (isMember : Char → Bool) (word : List Char) : List Char :=
  ((word.dropWhile isMember).reverse.dropWhile isMember).reverse

end PhyLang.Text
