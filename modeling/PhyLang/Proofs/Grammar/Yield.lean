import PhyLang.Proofs.Grammar.Shape

namespace PhyLang

open Source (Span)

/-- What a token says: a word, a mark or an operator, a name, or the value of a literal. -/
inductive Symbol
  | fixed (text : Json)
  | name (text : Json)
  | int (value : Json)
  | real (value : Float)
  | string (value : Json)

namespace Symbol

def ofWord (w : Word) : Symbol := .fixed (.str w.text)

def ofMark (m : Mark) : Symbol := .fixed (.str m.text)

/-- Names separated by commas. -/
def ofNames : List Json → List Symbol
  | [] => []
  | [param] => [.name param]
  | param :: rest => .name param :: ofMark .comma :: ofNames rest

/-- The bounds of a range. -/
def ofRange (start stop : Json) : List Symbol :=
  match stop with
  | .null => [.int start]
  | _ => [.int start, ofMark .range, .int stop]

end Symbol

open PhyLang.Symbol (ofWord ofMark)

/-- What a token says. -/
def Token.symbol (token : Token) : Symbol :=
  match token.kind with
  | .name => .name (Grammar.textOf token)
  | .int | .bound => .int (.int (intValue token.text))
  | .real => .real (realValue token.text)
  | .string => .string (.str ((stringValue? token.text).getD ""))
  | .word w => ofWord w
  | .mark m => ofMark m

namespace Node

/-- The placeholder of a loop, which is a declaration, stands there as a mere name. -/
def placeholderSymbols : Node → List Symbol
  | .varDecl name _ _ => [.name name]
  | _ => []

mutual

/-- A tree written out from left to right. -/
def symbols : Node → List Symbol
  | .absent => []
  | .exprStmt expr _ => symbols expr
  | .printStmt expr _ => ofWord .print :: symbols expr
  | .varDecl name .absent _ => [ofWord .var, .name name]
  | .varDecl name value _ => ofWord .var :: .name name :: ofMark .assign :: symbols value
  | .block statements _ => ofMark .openCurly :: allSymbols statements ++ [ofMark .closeCurly]
  | .ifStmt condition thenBranch .absent _ => ofWord .if :: symbols condition ++ symbols thenBranch
  | .ifStmt condition thenBranch elseBranch _ =>
    ofWord .if :: symbols condition ++ symbols thenBranch ++ ofWord .else :: symbols elseBranch
  | .whileStmt condition body _ => ofWord .while :: symbols condition ++ symbols body
  | .forStmt placeholder start stop body _ =>
    ofWord .for :: placeholderSymbols placeholder ++ ofWord .in :: Symbol.ofRange start stop ++ symbols body
  | .fnDecl name params body _ =>
    ofWord .fn :: .name name :: ofMark .openRound :: Symbol.ofNames params ++ ofMark .closeRound ::
      ofMark .openCurly :: allSymbols body ++ [ofMark .closeCurly]
  | .returnStmt value _ => ofWord .return :: symbols value
  | .assign name value _ => .name name :: ofMark .assign :: symbols value
  | .binary operator left right _ | .logical operator left right _ =>
    symbols left ++ .fixed operator :: symbols right
  | .unary operator right _ => .fixed operator :: symbols right
  | .call callee args _ => symbols callee ++ ofMark .openRound :: argSymbols args ++ [ofMark .closeRound]
  | .grouping expr _ => ofMark .openRound :: symbols expr ++ [ofMark .closeRound]
  | .intLiteral value _ => [.int (.int value)]
  | .realLiteral value _ => [.real value]
  | .strLiteral value _ => [.string value]
  | .identifier name _ => [.name name]

/-- Statements written out one after the other. -/
def allSymbols : List Node → List Symbol
  | [] => []
  | node :: rest => symbols node ++ allSymbols rest

/-- Arguments written out with commas between them. -/
def argSymbols : List Node → List Symbol
  | [] => []
  | [arg] => symbols arg
  | arg :: rest => symbols arg ++ ofMark .comma :: argSymbols rest

end

end Node

namespace Grammar

/-- What tokens say, apart from semicolons. -/
def yield (tokens : List Token) : List Symbol :=
  (tokens.filter fun token => !isMark .semicolon token).map Token.symbol

@[simp] theorem yield_nil : yield [] = [] := rfl

@[simp] theorem yield_append (first later : List Token) : yield (first ++ later) = yield first ++ yield later := by
  simp [yield]

theorem yield_cons {token : Token} (other : token.kind ≠ .mark .semicolon) (rest : List Token) :
    yield (token :: rest) = token.symbol :: yield rest := by
  have kept : (!isMark .semicolon token) = true := by simpa [isMark] using other
  simp [yield, kept]

theorem yield_semicolon {token : Token} (ends : token.kind = .mark .semicolon) (rest : List Token) :
    yield (token :: rest) = yield rest := by
  simp [yield, isMark, ends]

theorem yield_word {token : Token} {w : Word} (word : token.kind = .word w) (rest : List Token) :
    yield (token :: rest) = ofWord w :: yield rest := by
  rw [yield_cons (by simp [word]), Token.symbol, word]

theorem yield_mark {token : Token} {m : Mark} (mark : token.kind = .mark m) (other : m ≠ .semicolon)
    (rest : List Token) : yield (token :: rest) = ofMark m :: yield rest := by
  rw [yield_cons (by simp [mark, other]), Token.symbol, mark]

theorem yield_name {token : Token} (name : token.kind = .name) (rest : List Token) :
    yield (token :: rest) = .name (textOf token) :: yield rest := by
  rw [yield_cons (by simp [name]), Token.symbol, name]

theorem yield_bound {token : Token} (bound : token.kind = .bound) (rest : List Token) :
    yield (token :: rest) = .int (.int (Token.intValue token.text)) :: yield rest := by
  rw [yield_cons (by simp [bound]), Token.symbol, bound]

theorem yield_operator {token : Token} (spelled : Token.Spelled token.kind token.text) {level : Level}
    (joins : level.holds token.kind) (rest : List Token) :
    yield (token :: rest) = .fixed (textOf token) :: yield rest := by
  -- Operators are words or marks, and none of the marks is the semicolon.
  have word : ∀ {w : Word}, token.kind = .word w → yield (token :: rest) = .fixed (textOf token) :: yield rest := by
    intro w kind
    rw [yield_word kind, textOf_word spelled kind, ofWord]
  have mark : ∀ {m : Mark}, token.kind = .mark m → m ≠ .semicolon →
      yield (token :: rest) = .fixed (textOf token) :: yield rest := by
    intro m kind other
    rw [yield_mark kind other, textOf_mark spelled kind, ofMark]
  cases level with
  | or => exact word (eq_of_beq joins)
  | and => exact word (eq_of_beq joins)
  | equality =>
    simp only [Level.holds, Bool.or_eq_true, beq_iff_eq] at joins
    rcases joins with kind | kind <;> exact mark kind (by decide)
  | comparison =>
    simp only [Level.holds, Bool.or_eq_true, beq_iff_eq] at joins
    rcases joins with ((kind | kind) | kind) | kind <;> exact mark kind (by decide)
  | sum =>
    simp only [Level.holds, Bool.or_eq_true, beq_iff_eq] at joins
    rcases joins with kind | kind <;> exact mark kind (by decide)
  | product =>
    simp only [Level.holds, Bool.or_eq_true, beq_iff_eq] at joins
    rcases joins with kind | kind <;> exact mark kind (by decide)

theorem leaf_yield {token : Token} {node : Node} (alone : leaf? token = some node) :
    yield [token] = node.symbols ∧ node ≠ .absent := by
  unfold leaf? at alone
  split at alone
  · rename_i kind
    cases alone
    rw [yield_cons (by simp [kind]), Token.symbol, kind, Node.symbols]
    exact ⟨rfl, by simp⟩
  · rename_i kind
    cases alone
    rw [yield_cons (by simp [kind]), Token.symbol, kind, Node.symbols]
    exact ⟨rfl, by simp⟩
  · rename_i kind
    cases alone
    rw [yield_cons (by simp [kind]), Token.symbol, kind, Node.symbols]
    exact ⟨rfl, by simp⟩
  · rename_i kind
    cases alone
    rw [yield_name kind, Node.symbols]
    exact ⟨rfl, by simp⟩
  · cases alone

theorem Expr.ne_absent {rank : Nat} {tokens : List Token} {expr : Node × Span} :
    Expr rank tokens expr → expr.1 ≠ .absent
  | .leaf alone => (leaf_yield alone).2
  | .looser inner => inner.ne_absent
  | .join _ _ _ => by
    unfold joined
    simp only
    split <;> simp
  | .assign _ _ _ | .sign _ _ | .call _ _ _ _ | .grouping _ _ _ => by simp

mutual

/-- A derived expression yields its tokens. -/
theorem Expr.yields {rank : Nat} {tokens : List Token} {expr : Node × Span}
    (spelled : ∀ token ∈ tokens, Token.Spelled token.kind token.text) :
    Expr rank tokens expr → yield tokens = expr.1.symbols
  | .assign name equals inner => by
    have value := inner.yields fun token member => spelled token (by simp [member])
    rw [yield_name name, yield_mark equals (by decide), value, Node.symbols]
  | .looser inner => inner.yields spelled
  | .join joins left right => by
    have first := left.yields fun token member => spelled token (by simp [member])
    have second := right.yields fun token member => spelled token (by simp [member])
    rw [yield_append, yield_operator (spelled _ (by simp)) joins, first, second]
    unfold joined
    simp only
    split <;> rw [Node.symbols]
  | .sign signs inner => by
    have operand := inner.yields fun token member => spelled token (by simp [member])
    have operator := spelled _ (List.mem_cons_self ..)
    rcases signs with kind | kind
    · rw [yield_mark kind (by decide), operand, Node.symbols, textOf_mark operator kind, ofMark]
    · rw [yield_mark kind (by decide), operand, Node.symbols, textOf_mark operator kind, ofMark]
  | .call opens closes callee args => by
    have called := callee.yields fun token member => spelled token (by simp [member])
    have inner := args.yields fun token member => spelled token (by simp [member])
    rw [yield_append, yield_append, yield_mark opens (by decide), yield_mark closes (by decide), called, inner,
      Node.symbols, yield_nil]
  | .grouping opens closes inner => by
    have expr := inner.yields fun token member => spelled token (by simp [member])
    rw [yield_append, yield_mark opens (by decide), yield_mark closes (by decide), expr, Node.symbols, yield_nil]
  | .leaf alone => (leaf_yield alone).1

theorem Args.yields {tokens : List Token} {args : List Node}
    (spelled : ∀ token ∈ tokens, Token.Spelled token.kind token.text) :
    Args tokens args → yield tokens = Node.argSymbols args
  | .none => rfl
  | @Args.some _ _ arg _ first later => by
    have expr := first.yields fun token member => spelled token (by simp [member])
    rw [yield_append, expr]
    exact later.yields (fun token member => spelled token (by simp [member])) arg.1

theorem MoreArgs.yields {tokens : List Token} {args : List Node}
    (spelled : ∀ token ∈ tokens, Token.Spelled token.kind token.text) :
    MoreArgs tokens args → ∀ arg, arg.symbols ++ yield tokens = Node.argSymbols (arg :: args)
  | .none => by simp [Node.argSymbols]
  | @MoreArgs.next _ _ _ next _ separates first later => by
    intro arg
    have expr := first.yields fun token member => spelled token (by simp [member])
    have others := later.yields (fun token member => spelled token (by simp [member])) next.1
    rw [List.cons_append, yield_mark separates (by decide), yield_append, expr, others]
    rfl

end

theorem Bounds.yields {tokens : List Token} {range : Json × Json} (derived : Bounds tokens range) :
    yield tokens = Symbol.ofRange range.1 range.2 := by
  cases derived with
  | one bound =>
    rw [yield_bound bound]
    rfl
  | two bound separates secondBound =>
    rw [yield_bound bound, yield_mark separates (by decide), yield_bound secondBound]
    rfl

theorem MoreParams.yields {tokens : List Token} {params : List Json} (derived : MoreParams tokens params)
    (param : Json) : .name param :: yield tokens = Symbol.ofNames (param :: params) := by
  induction derived generalizing param with
  | none => rfl
  | next separates name _ ih =>
    rw [yield_mark separates (by decide), yield_name name, ih]
    rfl

theorem Params.yields {tokens : List Token} {params : List Json} (derived : Params tokens params) :
    yield tokens = Symbol.ofNames params := by
  cases derived with
  | none => rfl
  | some name later => rw [yield_name name, later.yields]

theorem Simple.yields {tokens : List Token} {node : Node}
    (spelled : ∀ token ∈ tokens, Token.Spelled token.kind token.text) (derived : Simple tokens node) :
    yield tokens = node.symbols := by
  cases derived with
  | print begins inner =>
    have expr := inner.yields fun token member => spelled token (by simp [member])
    rw [yield_word begins, expr, Node.symbols]
  | declare begins name equals inner =>
    have value := inner.yields fun token member => spelled token (by simp [member])
    rw [yield_word begins, yield_name name, yield_mark equals (by decide), value, Node.symbols]
    -- Only an absent value is written without the equals sign.
    exact inner.ne_absent
  | declareEmpty begins name => rw [yield_word begins, yield_name name, Node.symbols, yield_nil]
  | «return» begins inner =>
    have value := inner.yields fun token member => spelled token (by simp [member])
    rw [yield_word begins, value, Node.symbols]
  | returnEmpty begins => rw [yield_word begins, Node.symbols, Node.symbols, yield_nil]
  | expr inner => rw [inner.yields spelled, Node.symbols]

theorem Compound.ne_absent {tokens : List Token} {node : Node × Span} (derived : Compound tokens node) :
    node.1 ≠ .absent := by
  cases derived <;> simp

mutual

/-- Derived statements yield their tokens. -/
theorem Statements.yields {tokens : List Token} {nodes : List Node}
    (spelled : ∀ token ∈ tokens, Token.Spelled token.kind token.text) :
    Statements tokens nodes → yield tokens = Node.allSymbols nodes
  | .none => rfl
  | .semicolon ends later => by
    rw [yield_semicolon ends]
    exact later.yields fun token member => spelled token (by simp [member])
  | .last only => by rw [only.yields spelled, Node.allSymbols, Node.allSymbols, List.append_nil]
  | .simple first ends later => by
    have node := first.yields fun token member => spelled token (by simp [member])
    have others := later.yields fun token member => spelled token (by simp [member])
    rw [yield_append, yield_semicolon ends, node, others, Node.allSymbols]
  | .compound first later => by
    have node := first.yields fun token member => spelled token (by simp [member])
    have others := later.yields fun token member => spelled token (by simp [member])
    rw [yield_append, node, others, Node.allSymbols]

theorem Block.yields {tokens : List Token} {body : List Node × Span}
    (spelled : ∀ token ∈ tokens, Token.Spelled token.kind token.text) :
    Block tokens body → yield tokens = ofMark .openCurly :: Node.allSymbols body.1 ++ [ofMark .closeCurly]
  | .curly opens closes inner => by
    have nodes := inner.yields fun token member => spelled token (by simp [member])
    rw [yield_append, yield_mark opens (by decide), yield_mark closes (by decide), nodes, yield_nil]

theorem Compound.yields {tokens : List Token} {node : Node × Span}
    (spelled : ∀ token ∈ tokens, Token.Spelled token.kind token.text) :
    Compound tokens node → yield tokens = node.1.symbols
  | .if begins inner body => by
    have condition := inner.yields fun token member => spelled token (by simp [member])
    have branch := body.yields fun token member => spelled token (by simp [member])
    rw [yield_append, yield_word begins, condition, branch, Node.symbols, Node.symbols]
  | .ifElse begins inner body (.else word _ other) => by
    have condition := inner.yields fun token member => spelled token (by simp [member])
    have branch := body.yields fun token member => spelled token (by simp [member])
    have alternative := other.yields fun token member =>
      spelled token (List.mem_append_right _ (List.mem_cons_of_mem _ member))
    rw [yield_append, yield_append, yield_word begins, yield_word word, condition, branch, alternative, Node.symbols,
      Node.symbols]
    exact other.ne_absent
  | .while begins inner body => by
    have condition := inner.yields fun token member => spelled token (by simp [member])
    have repeated := body.yields fun token member => spelled token (by simp [member])
    rw [yield_append, yield_word begins, condition, repeated, Node.symbols, Node.symbols]
  | .for begins name within range body => by
    have repeated := body.yields fun token member => spelled token (by simp [member])
    rw [yield_append, yield_word begins, yield_name name, yield_word within, range.yields, repeated, Node.symbols,
      Node.symbols, Node.placeholderSymbols]
    simp
  | .function begins name opens closes params body => by
    have inner := body.yields fun token member => spelled token (by simp [member])
    rw [yield_append, yield_word begins, yield_name name, yield_mark opens (by decide), params.yields,
      yield_mark closes (by decide), inner, Node.symbols]
    simp
  | .block body => by rw [body.yields spelled, Node.symbols]

end

end Grammar

end PhyLang
