import PhyLang.Text.Blank

namespace PhyLang.Source

/-- Where a place of the source lies: in code, in a string, in a string after a backslash, or in a
comment. -/
inductive Region
  | code
  | string
  | escape
  | comment
  deriving DecidableEq, Repr, Inhabited

/-- What is known of the source before a place: its region, the number of open round brackets and
the last visible character that was kept. -/
structure Scan where
  region : Region := .code
  depth : Nat := 0
  last : Option Char := none
  deriving DecidableEq, Repr, Inhabited

namespace Scan

def keep (s : Scan) (c : Char) : Scan := if Text.isBlank c then s else { s with last := some c }

/-- Whether a line that ends here leaves a statement open. -/
def isOpen (s : Scan) : Bool :=
  s.depth == 0 && s.last.any fun c => c != ';' && c != '\x7b' && c != '\x7d'

/-- The scan after a character of code that is no line end and starts no comment. -/
def code (s : Scan) (c : Char) : Scan :=
  let kept := s.keep c
  match c with
  | '"' => { kept with region := .string }
  | '(' => { kept with depth := s.depth + 1 }
  | ')' => { kept with depth := s.depth - 1 }
  | _ => kept

def string (s : Scan) (c : Char) : Scan :=
  let kept := s.keep c
  match s.region, c with
  | .escape, _ => { kept with region := .string }
  | _, '\\' => { kept with region := .escape }
  | _, '"' => { kept with region := .code }
  | _, _ => kept

/-- The scan after a line end outside of strings. -/
def lineEnd (s : Scan) : Scan :=
  { s with region := .code, last := if s.isOpen then some ';' else s.last }

end Scan

def terminateFrom (s : Scan) : List Char → List Char
  | [] => []
  | c :: rest =>
    match s.region with
    | .string | .escape => c :: terminateFrom (s.string c) rest
    | region =>
      if c = '\n' then
        if s.isOpen then ';' :: '\n' :: terminateFrom s.lineEnd rest else '\n' :: terminateFrom s.lineEnd rest
      else if region = .comment ∨ (c = '/' ∧ rest.head? = some '/') then
        terminateFrom { s with region := .comment } rest
      else c :: terminateFrom (s.code c) rest

/-- The source with its statements terminated. Comments are removed, and a line end outside of
strings and round brackets closes the statement before it by a semicolon. Line ends stay where they
are, so every remaining character keeps its line and column. -/
def terminate (source : List Char) : List Char := terminateFrom {} source

end PhyLang.Source
