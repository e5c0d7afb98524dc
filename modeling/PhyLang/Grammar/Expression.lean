import PhyLang.Ast.Basic
import PhyLang.Grammar.Level
import PhyLang.Token.Literal

namespace PhyLang.Grammar

open Source (Span)

/-- What comes of reading: a result, or the tokens from the first that does not fit on. -/
abbrev Reading := Except (List Token)

def textOf (token : Token) : Json := .str (String.ofList token.text)

def isMark (m : Mark) (token : Token) : Bool := token.kind == .mark m

def isWord (w : Word) (token : Token) : Bool := token.kind == .word w

def expect (fits : Token → Bool) : List Token → Reading (Token × List Token)
  | token :: rest => if fits token then .ok (token, rest) else .error (token :: rest)
  | [] => .error []

def joined (level : Level) (operator : Token) (left right : Node × Span) : Node × Span :=
  let span := left.2.to right.2
  let node := if level.isLogical then Node.logical else Node.binary
  (node (textOf operator) left.1 right.1 (some (.ofSpan span)), span)

def leaf? (token : Token) : Option Node :=
  let loc := some (Loc.ofSpan token.span)
  match token.kind with
  | .int => some (.intLiteral (Token.intValue token.text) loc)
  | .real => some (.realLiteral (Token.realValue token.text) loc)
  | .string => some (.strLiteral (.str ((Token.stringValue? token.text).getD "")) loc)
  | .name => some (.identifier (textOf token) loc)
  | _ => none

mutual

/-- An expression: a name that is assigned to, or operands joined by binary operators. Like the
functions below, this one reads a form from the front of a sequence of tokens and gives the node,
the stretch that it spans and the tokens that are left. Every step takes one unit of fuel. -/
def expression : (fuel : Nat) → List Token → Reading ((Node × Span) × List Token)
  | 0, tokens => .error tokens
  | fuel + 1, name :: sign :: rest =>
    if name.kind == .name && isMark .assign sign then do
      let (value, rest) ← expression fuel rest
      let span := name.span.to value.2
      return ((.assign (textOf name) value.1 (some (.ofSpan span)), span), rest)
    else operand fuel (some .or) (name :: sign :: rest)
  | fuel + 1, tokens => operand fuel (some .or) tokens

/-- An operand of the next looser level, that is a chain of operators of this level, or a unary
expression if there is no level left. -/
def operand : (fuel : Nat) → Option Level → List Token → Reading ((Node × Span) × List Token)
  | 0, _, tokens => .error tokens
  | fuel + 1, none, tokens => unary fuel tokens
  | fuel + 1, some level, tokens => do
    let (left, rest) ← operand fuel level.tighter tokens
    chain fuel level left rest

/-- What follows the first operand of a chain of operators of one level. -/
def chain : (fuel : Nat) → Level → Node × Span → List Token → Reading ((Node × Span) × List Token)
  | 0, _, _, tokens => .error tokens
  | _ + 1, _, left, [] => .ok (left, [])
  | fuel + 1, level, left, operator :: rest =>
    if level.holds operator.kind then do
      let (right, rest) ← operand fuel level.tighter rest
      chain fuel level (joined level operator left right) rest
    else .ok (left, operator :: rest)

/-- An operand of the tightest binary operators: one with a sign before it, or a call. -/
def unary : (fuel : Nat) → List Token → Reading ((Node × Span) × List Token)
  | 0, tokens => .error tokens
  | _ + 1, [] => .error []
  | fuel + 1, token :: rest =>
    if isMark .bang token || isMark .minus token then do
      let (right, rest) ← unary fuel rest
      let span := token.span.to right.2
      return ((.unary (textOf token) right.1 (some (.ofSpan span)), span), rest)
    else do
      let (callee, rest) ← primary fuel (token :: rest)
      calls fuel callee rest

def primary : (fuel : Nat) → List Token → Reading ((Node × Span) × List Token)
  | 0, tokens => .error tokens
  | _ + 1, [] => .error []
  | fuel + 1, token :: rest =>
    if isMark .openRound token then do
      let (expr, rest) ← expression fuel rest
      let (close, rest) ← expect (isMark .closeRound) rest
      let span := token.span.to close.span
      return ((.grouping expr.1 (some (.ofSpan span)), span), rest)
    else
      match leaf? token with
      | some node => .ok ((node, token.span), rest)
      | none => .error (token :: rest)

def calls : (fuel : Nat) → Node × Span → List Token → Reading ((Node × Span) × List Token)
  | 0, _, tokens => .error tokens
  | _ + 1, callee, [] => .ok (callee, [])
  | fuel + 1, callee, token :: rest =>
    if isMark .openRound token then do
      let (args, rest) ← arguments fuel rest
      let (close, rest) ← expect (isMark .closeRound) rest
      let span := callee.2.to close.span
      calls fuel (.call callee.1 args (some (.ofSpan span)), span) rest
    else .ok (callee, token :: rest)

def arguments : (fuel : Nat) → List Token → Reading (List Node × List Token)
  | 0, tokens => .error tokens
  | _ + 1, [] => .error []
  | fuel + 1, token :: rest =>
    if isMark .closeRound token then .ok ([], token :: rest)
    else do
      let (arg, rest) ← expression fuel (token :: rest)
      let (args, rest) ← moreArguments fuel rest
      return (arg.1 :: args, rest)

def moreArguments : (fuel : Nat) → List Token → Reading (List Node × List Token)
  | 0, tokens => .error tokens
  | _ + 1, [] => .ok ([], [])
  | fuel + 1, token :: rest =>
    if isMark .comma token then do
      let (arg, rest) ← expression fuel rest
      let (args, rest) ← moreArguments fuel rest
      return (arg.1 :: args, rest)
    else .ok ([], token :: rest)

end

end PhyLang.Grammar
