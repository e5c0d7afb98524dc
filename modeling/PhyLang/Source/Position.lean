namespace PhyLang.Source

/-- A place in a text. Lines and columns count from one, columns count characters, and only the line
feed starts a new line. -/
structure Position where
  line : Nat
  column : Nat
  deriving DecidableEq, Repr, Inhabited

namespace Position

def first : Position := ⟨1, 1⟩

def next (p : Position) (c : Char) : Position :=
  if c = '\n' then ⟨p.line + 1, 1⟩ else ⟨p.line, p.column + 1⟩

def advance (p : Position) (word : List Char) : Position := word.foldl next p

end Position

/-- A stretch of a text, from the place of its first character to the place after its last. -/
structure Span where
  start : Position
  stop : Position
  deriving DecidableEq, Repr, Inhabited

def Span.to (first last : Span) : Span := ⟨first.start, last.stop⟩

end PhyLang.Source
