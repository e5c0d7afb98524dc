import PhyLang.Source.Position

namespace PhyLang

inductive Word
  | print | var | return | if | else | while | for | in | fn | and | or
  deriving DecidableEq, Repr, Inhabited

def Word.text : Word → String
  | .print => "print"
  | .var => "var"
  | .return => "return"
  | .if => "if"
  | .else => "else"
  | .while => "while"
  | .for => "for"
  | .in => "in"
  | .fn => "fn"
  | .and => "and"
  | .or => "or"

/-- All words. None of them begins another. -/
def Word.all : List Word := [.print, .var, .return, .if, .else, .while, .for, .in, .fn, .and, .or]

inductive Mark
  | assign | equal | notEqual | less | lessEqual | greater | greaterEqual
  | plus | minus | star | slash | bang
  | openRound | closeRound | openCurly | closeCurly | comma | semicolon | range
  deriving DecidableEq, Repr, Inhabited

def Mark.text : Mark → String
  | .assign => "="
  | .equal => "=="
  | .notEqual => "!="
  | .less => "<"
  | .lessEqual => "<="
  | .greater => ">"
  | .greaterEqual => ">="
  | .plus => "+"
  | .minus => "-"
  | .star => "*"
  | .slash => "/"
  | .bang => "!"
  | .openRound => "("
  | .closeRound => ")"
  | .openCurly => "\x7b"
  | .closeCurly => "\x7d"
  | .comma => ","
  | .semicolon => ";"
  | .range => ".."

/-- All marks, those of two characters before those of one. -/
def Mark.all : List Mark :=
  [.equal, .notEqual, .lessEqual, .greaterEqual, .range, .assign, .less, .greater, .plus, .minus, .star,
   .slash, .bang, .openRound, .closeRound, .openCurly, .closeCurly, .comma, .semicolon]

/-- The kinds of tokens. Range bounds are a kind of number of their own, since they may carry a
sign. -/
inductive Kind
  | name
  | int
  | real
  | string
  | bound
  | word (w : Word)
  | mark (m : Mark)
  deriving DecidableEq, Repr, Inhabited

structure Token where
  kind : Kind
  text : List Char
  span : Source.Span
  deriving DecidableEq, Repr, Inhabited

end PhyLang
