namespace PhyLang.Text

/-- Whether a number is the first half of a pair that stands for one character. -/
def isLeadingHalf (code : Nat) : Bool := 0xd800 ≤ code && code ≤ 0xdbff

/-- Whether a number is the second half of a pair that stands for one character. -/
def isTrailingHalf (code : Nat) : Bool := 0xdc00 ≤ code && code ≤ 0xdfff

def joinHalves (leading trailing : Nat) : Char :=
  Char.ofNat (0x10000 + (leading - 0xd800) * 0x400 + (trailing - 0xdc00))

/-- The character with a number, if the number is not too large. A half of a pair has no character
of its own. The host keeps a lone half in a text, and refuses to print that text; here texts are
sequences of characters, and a lone half gives the replacement character. -/
def charOfCode? (code : Nat) : Option Char :=
  if 0x10ffff < code then none
  else if isLeadingHalf code ∨ isTrailingHalf code then some '\ufffd'
  else some (Char.ofNat code)

end PhyLang.Text
