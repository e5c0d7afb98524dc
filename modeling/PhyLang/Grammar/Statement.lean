import PhyLang.Grammar.Expression

namespace PhyLang.Grammar

open Source (Span)

def name (tokens : List Token) : Reading (Token × List Token) := expect (·.kind == .name) tokens

def bound (tokens : List Token) : Reading (Int × List Token) := do
  let (token, rest) ← expect (·.kind == .bound) tokens
  return (Token.intValue token.text, rest)

def bounds (tokens : List Token) : Reading ((Json × Json) × List Token) := do
  let (first, rest) ← bound tokens
  match rest with
  | token :: after =>
    if isMark .range token then
      let (second, rest) ← bound after
      return ((.int first, .int second), rest)
    else return ((.int first, .null), rest)
  | [] => return ((.int first, .null), [])

def moreParameters : List Token → Reading (List Json × List Token)
  | comma :: param :: rest =>
    if isMark .comma comma then
      if param.kind == .name then do
        let (params, rest) ← moreParameters rest
        return (textOf param :: params, rest)
      else .error (param :: rest)
    else .ok ([], comma :: param :: rest)
  | [comma] => if isMark .comma comma then .error [] else .ok ([], [comma])
  | [] => .ok ([], [])

def parameters : List Token → Reading (List Json × List Token)
  | token :: rest =>
    if isMark .closeRound token then .ok ([], token :: rest)
    else if token.kind == .name then do
      let (params, rest) ← moreParameters rest
      return (textOf token :: params, rest)
    else .error (token :: rest)
  | [] => .error []

/-- A statement without a block. It ends at a semicolon, or at the end of the block or program that
it stands in. -/
def simple (fuel : Nat) : List Token → Reading (Node × List Token)
  | [] => .error []
  | token :: rest =>
    match token.kind with
    | .word .print => do
      let (expr, rest) ← expression fuel rest
      return (.printStmt expr.1 (some (.ofSpan (token.span.to expr.2))), rest)
    | .word .var => do
      let (target, rest) ← name rest
      match rest with
      | sign :: after =>
        if isMark .assign sign then
          let (value, rest) ← expression fuel after
          return (.varDecl (textOf target) value.1 (some (.ofSpan (token.span.to value.2))), rest)
        else return (.varDecl (textOf target) .absent (some (.ofSpan (token.span.to target.span))), rest)
      | [] => return (.varDecl (textOf target) .absent (some (.ofSpan (token.span.to target.span))), [])
    | .word .return =>
      if rest.head?.all fun next => isMark .semicolon next || isMark .closeCurly next then
        .ok (.returnStmt .absent (some (.ofSpan token.span)), rest)
      else do
        let (value, rest) ← expression fuel rest
        return (.returnStmt value.1 (some (.ofSpan (token.span.to value.2))), rest)
    | _ => do
      let (expr, rest) ← expression fuel (token :: rest)
      return (.exprStmt expr.1 (some (.ofSpan expr.2)), rest)

/-- Whether a token begins a statement that ends with a block. -/
def beginsCompound (token : Token) : Bool :=
  match token.kind with
  | .mark .openCurly | .word .if | .word .while | .word .for | .word .fn => true
  | _ => false

mutual

/-- The statements up to the end of the program, or of the block that they stand in. Semicolons may
be repeated, and behind a block none is needed. -/
def statements : (fuel : Nat) → (inBlock : Bool) → List Token → Reading (List Node × List Token)
  | 0, _, tokens => .error tokens
  | _ + 1, inBlock, [] => if inBlock then .error [] else .ok ([], [])
  | fuel + 1, inBlock, token :: rest =>
    if isMark .semicolon token then statements fuel inBlock rest
    else if isMark .closeCurly token then
      if inBlock then .ok ([], token :: rest) else .error (token :: rest)
    else if beginsCompound token then do
      let (node, rest) ← compound fuel (token :: rest)
      let (nodes, rest) ← statements fuel inBlock rest
      return (node.1 :: nodes, rest)
    else do
      let (node, rest) ← simple fuel (token :: rest)
      let (nodes, rest) ← afterSimple fuel inBlock rest
      return (node :: nodes, rest)

/-- What may follow a simple statement: a semicolon and more statements, or the end. -/
def afterSimple : (fuel : Nat) → (inBlock : Bool) → List Token → Reading (List Node × List Token)
  | 0, _, tokens => .error tokens
  | fuel + 1, inBlock, token :: rest =>
    if isMark .semicolon token || isMark .closeCurly token then statements fuel inBlock (token :: rest)
    else .error (token :: rest)
  | fuel + 1, inBlock, [] => statements fuel inBlock []

def block : (fuel : Nat) → List Token → Reading ((List Node × Span) × List Token)
  | 0, tokens => .error tokens
  | fuel + 1, tokens => do
    let (opening, rest) ← expect (isMark .openCurly) tokens
    let (nodes, rest) ← statements fuel true rest
    let (close, rest) ← expect (isMark .closeCurly) rest
    return ((nodes, opening.span.to close.span), rest)

def compound : (fuel : Nat) → List Token → Reading ((Node × Span) × List Token)
  | 0, tokens => .error tokens
  | _ + 1, [] => .error []
  | fuel + 1, token :: rest =>
    match token.kind with
    | .word .if => do
      let (condition, rest) ← expression fuel rest
      let ((nodes, body), rest) ← block fuel rest
      let thenBranch := Node.block nodes (some (.ofSpan body))
      let (other, rest) ← alternative fuel rest
      let span := token.span.to ((other.map (·.2)).getD body)
      let elseBranch := (other.map (·.1)).getD .absent
      return ((.ifStmt condition.1 thenBranch elseBranch (some (.ofSpan span)), span), rest)
    | .word .while => do
      let (condition, rest) ← expression fuel rest
      let ((nodes, body), rest) ← block fuel rest
      let span := token.span.to body
      return ((.whileStmt condition.1 (.block nodes (some (.ofSpan body))) (some (.ofSpan span)), span), rest)
    | .word .for => do
      let (target, rest) ← name rest
      let (_, rest) ← expect (isWord .in) rest
      let ((first, last), rest) ← bounds rest
      let ((nodes, body), rest) ← block fuel rest
      let span := token.span.to body
      let placeholder := Node.varDecl (textOf target) .absent (some (.ofSpan target.span))
      let repeated := Node.block nodes (some (.ofSpan body))
      return ((.forStmt placeholder first last repeated (some (.ofSpan span)), span), rest)
    | .word .fn => do
      let (target, rest) ← name rest
      let (_, rest) ← expect (isMark .openRound) rest
      let (params, rest) ← parameters rest
      let (_, rest) ← expect (isMark .closeRound) rest
      let ((nodes, body), rest) ← block fuel rest
      let span := token.span.to body
      return ((.fnDecl (textOf target) params nodes (some (.ofSpan span)), span), rest)
    | _ => do
      let ((nodes, span), rest) ← block fuel (token :: rest)
      return ((.block nodes (some (.ofSpan span)), span), rest)

/-- The alternative of a condition, if there is one: a block or another condition. -/
def alternative : (fuel : Nat) → List Token → Reading (Option (Node × Span) × List Token)
  | 0, tokens => .error tokens
  | _ + 1, [] => .ok (none, [])
  | fuel + 1, token :: rest =>
    if isWord .else token then
      match rest with
      | next :: after =>
        if isWord .if next || isMark .openCurly next then do
          let (node, rest) ← compound fuel (next :: after)
          return (some node, rest)
        else .error (next :: after)
      | [] => .error []
    else .ok (none, token :: rest)

end

/-- The statements of a program, up to the end of the tokens. Between two tokens reading descends
through at most sixteen forms, so the fuel cannot run out. -/
def program (tokens : List Token) : Reading (List Node × List Token) :=
  statements (16 * (tokens.length + 1)) false tokens

end PhyLang.Grammar
