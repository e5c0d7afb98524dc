import PhyLang.Token.Basic

namespace PhyLang.Token

/-- What may come next. A word of the language is a plain name where that word cannot stand, and a
minus sign belongs to a number only where a range bound must stand; so the kinds that are looked for
depend on the tokens before. In `block`, `argument`, `result`, `initial`, `afterFirstBound` and
`firstParameter` what is begun may also end at once. -/
inductive Mode
  | program
  | block
  | statement
  | afterBlock
  | operand
  | argument
  | result
  | afterOperand
  | variable
  | initial
  | placeholder
  | beforeRange
  | firstBound
  | afterFirstBound
  | secondBound
  | function
  | parameters
  | firstParameter
  | afterParameter
  | parameter
  | body
  | alternative
  deriving DecidableEq, Repr, Inhabited

namespace Mode

def beginsOperand : Kind → Bool
  | .name | .int | .real | .string | .mark .openRound | .mark .minus | .mark .bang => true
  | _ => false

def beginsStatement : Kind → Bool
  | .mark .semicolon | .mark .openCurly | .word .print | .word .var | .word .return | .word .if
  | .word .while | .word .for | .word .fn => true
  | kind => beginsOperand kind

def followsOperand : Kind → Bool
  | .word .and | .word .or => true
  | .mark .bang | .mark .range => false
  | .mark _ => true
  | _ => false

def accepts : Mode → Kind → Bool
  | .program, kind => beginsStatement kind
  | .block, kind | .statement, kind => beginsStatement kind || kind == .mark .closeCurly
  | .afterBlock, kind => beginsStatement kind || kind == .mark .closeCurly || kind == .word .else
  | .operand, kind => beginsOperand kind
  | .argument, kind => beginsOperand kind || kind == .mark .closeRound
  | .result, kind => beginsOperand kind || kind == .mark .semicolon || kind == .mark .closeCurly
  | .afterOperand, kind => followsOperand kind
  | .initial, kind => kind == .mark .assign || kind == .mark .semicolon || kind == .mark .closeCurly
  | .variable, kind | .placeholder, kind | .function, kind | .parameter, kind => kind == .name
  | .beforeRange, kind => kind == .word .in
  | .firstBound, kind | .secondBound, kind => kind == .bound
  | .afterFirstBound, kind => kind == .mark .range || kind == .mark .openCurly
  | .parameters, kind => kind == .mark .openRound
  | .firstParameter, kind => kind == .name || kind == .mark .closeRound
  | .afterParameter, kind => kind == .mark .comma || kind == .mark .closeRound
  | .body, kind => kind == .mark .openCurly
  | .alternative, kind => kind == .word .if || kind == .mark .openCurly

/-- The mode after a token that may begin a statement, or stand inside an expression. -/
def afterKind : Kind → Mode
  | .name | .int | .real | .string | .bound | .mark .closeRound => .afterOperand
  | .word .var => .variable
  | .word .return => .result
  | .word .else => .alternative
  | .word .for => .placeholder
  | .word .fn => .function
  | .word _ => .operand
  | .mark .openCurly => .block
  | .mark .closeCurly => .afterBlock
  | .mark .semicolon => .statement
  | .mark _ => .operand

def next : Mode → Kind → Mode
  | .afterOperand, .mark .openRound => .argument
  | .variable, _ => .initial
  | .placeholder, _ => .beforeRange
  | .beforeRange, _ => .firstBound
  | .firstBound, _ => .afterFirstBound
  | .afterFirstBound, .mark .range => .secondBound
  | .secondBound, _ => .body
  | .function, _ => .parameters
  | .parameters, _ => .firstParameter
  | .firstParameter, .name => .afterParameter
  | .firstParameter, _ => .body
  | .afterParameter, .mark .comma => .parameter
  | .afterParameter, _ => .body
  | .parameter, _ => .afterParameter
  | _, kind => afterKind kind

end Mode

end PhyLang.Token
