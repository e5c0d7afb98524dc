import PhyLang.Proofs.Ast.Shape
import PhyLang.Proofs.Grammar.Derivation
import PhyLang.Proofs.Token.Scan

namespace PhyLang.Grammar

open Source (Span)

/-- A stretch that starts where the first of some tokens starts and stops where the last one stops. -/
def Spans (tokens : List Token) (span : Span) : Prop :=
  ∃ first last, tokens.head? = some first ∧ tokens.getLast? = some last ∧ span = first.span.to last.span

namespace Spans

theorem single (token : Token) : Spans [token] token.span := ⟨token, token, rfl, rfl, rfl⟩

theorem append {left middle right : List Token} {first last : Span} (before : Spans left first)
    (after : Spans right last) : Spans (left ++ middle ++ right) (first.to last) := by
  obtain ⟨a, b, head, -, rfl⟩ := before
  obtain ⟨c, d, -, final, rfl⟩ := after
  refine ⟨a, d, ?_, ?_, rfl⟩
  · rw [List.append_assoc, List.head?_append, head]
    rfl
  · rw [List.getLast?_append, final]
    rfl

theorem cons {token : Token} {middle right : List Token} {last : Span} (after : Spans right last) :
    Spans (token :: middle ++ right) (token.span.to last) := append (single token) after

theorem close {token closing : Token} {middle : List Token} :
    Spans (token :: middle ++ [closing]) (token.span.to closing.span) := cons (single closing)

end Spans

/-- The span of an expression reaches from its first token to its last one. -/
theorem Expr.spans {rank : Nat} {tokens : List Token} {expr : Node × Span} :
    Expr rank tokens expr → Spans tokens expr.2
  | .leaf _ => Spans.single _
  | .looser derived => derived.spans
  | @Expr.assign _ equals _ _ _ _ derived => @Spans.cons _ [equals] _ _ derived.spans
  | @Expr.join _ operator leftTokens rightTokens _ _ _ left right => by
    have whole := @Spans.append leftTokens [operator] rightTokens _ _ left.spans right.spans
    rwa [List.append_assoc] at whole
  | .sign _ derived => @Spans.cons _ [] _ _ derived.spans
  | .call _ _ callee _ => Spans.append callee.spans (Spans.single _)
  | .grouping _ _ _ => Spans.close

theorem Block.spans {tokens : List Token} {body : List Node × Span} (derived : Block tokens body) :
    Spans tokens body.2 := by
  cases derived
  exact Spans.close

theorem textOf_mark {token : Token} (spelled : Token.Spelled token.kind token.text) {m : Mark}
    (mark : token.kind = .mark m) : textOf token = .str m.text := by
  rw [mark] at spelled
  rw [textOf, spelled, String.ofList_toList]

theorem textOf_word {token : Token} (spelled : Token.Spelled token.kind token.text) {w : Word}
    (word : token.kind = .word w) : textOf token = .str w.text := by
  rw [word] at spelled
  rw [textOf, spelled, String.ofList_toList]

/-- The text of an operator of a level is one of the operators of that level. -/
theorem textOf_operator {token : Token} (spelled : Token.Spelled token.kind token.text) {level : Level}
    (joins : level.holds token.kind) : ∃ text ∈ level.operators, textOf token = .str text := by
  cases level with
  | or => exact ⟨_, by decide, textOf_word spelled (eq_of_beq joins)⟩
  | and => exact ⟨_, by decide, textOf_word spelled (eq_of_beq joins)⟩
  | equality =>
    simp only [Level.holds, Bool.or_eq_true, beq_iff_eq] at joins
    rcases joins with kind | kind <;> exact ⟨_, by decide, textOf_mark spelled kind⟩
  | comparison =>
    simp only [Level.holds, Bool.or_eq_true, beq_iff_eq] at joins
    rcases joins with ((kind | kind) | kind) | kind <;> exact ⟨_, by decide, textOf_mark spelled kind⟩
  | sum =>
    simp only [Level.holds, Bool.or_eq_true, beq_iff_eq] at joins
    rcases joins with kind | kind <;> exact ⟨_, by decide, textOf_mark spelled kind⟩
  | product =>
    simp only [Level.holds, Bool.or_eq_true, beq_iff_eq] at joins
    rcases joins with kind | kind <;> exact ⟨_, by decide, textOf_mark spelled kind⟩

/-- Whether some tokens are spelled as their kinds ask for, and their names, their integers and the
stretches between them are such as is asked of the parts of nodes. -/
structure Fits (parts : Parts) (tokens : List Token) : Prop where
  spelled : ∀ token ∈ tokens, Token.Spelled token.kind token.text
  names : ∀ token ∈ tokens, token.kind = .name → parts.name (String.ofList token.text)
  ints : ∀ token ∈ tokens, token.kind = .int ∨ token.kind = .bound → parts.int (Token.intValue token.text)
  locs : ∀ first ∈ tokens, ∀ last ∈ tokens, parts.loc (some (.ofSpan (first.span.to last.span)))

namespace Fits

variable {parts : Parts} {tokens : List Token}

theorem sub (fits : Fits parts tokens) {used : List Token} (among : ∀ token ∈ used, token ∈ tokens) :
    Fits parts used where
  spelled token member := fits.spelled token (among token member)
  names token member := fits.names token (among token member)
  ints token member := fits.ints token (among token member)
  locs first firstMember last lastMember := fits.locs first (among first firstMember) last (among last lastMember)

theorem located (fits : Fits parts tokens) {span : Span} (spans : Spans tokens span) :
    parts.loc (some (.ofSpan span)) := by
  obtain ⟨first, last, head, final, rfl⟩ := spans
  exact fits.locs first (List.mem_of_mem_head? head) last (List.mem_of_getLast? final)

theorem named (fits : Fits parts tokens) {token : Token} (member : token ∈ tokens) (name : token.kind = .name) :
    parts.IsName (textOf token) := ⟨_, rfl, fits.names token member name⟩

end Fits

variable {parts : Parts}

theorem Level.logicalOperators_of_operators {level : Level} (logical : level.isLogical) {text : String}
    (known : text ∈ level.operators) : text ∈ Node.logicalOperators := by
  cases level <;> simp_all [Level.operators, Level.isLogical, Node.logicalOperators]

theorem Level.binaryOperators_of_operators {level : Level} (notLogical : ¬level.isLogical) {text : String}
    (known : text ∈ level.operators) : text ∈ Node.binaryOperators := by
  cases level <;> simp [Level.operators, Level.isLogical, Node.binaryOperators] at * <;> tauto

theorem leaf_isExpression {token : Token} {node : Node} (fits : Fits parts [token]) (alone : leaf? token = some node) :
    node.IsExpression parts := by
  have member : token ∈ [token] := List.mem_singleton.mpr rfl
  have located := fits.located (.single token)
  unfold leaf? at alone
  split at alone <;> cases alone
  · rename_i kind
    exact .intLiteral (fits.ints token member (Or.inl kind)) located
  · exact .realLiteral located
  · exact .strLiteral located
  · rename_i kind
    exact .identifier (fits.named member kind) located

mutual

/-- A derived expression is an expression of the language. -/
theorem Expr.isExpression {rank : Nat} {tokens : List Token} {expr : Node × Span} (fits : Fits parts tokens) :
    Expr rank tokens expr → expr.1.IsExpression parts
  | .assign name equals inner =>
    .assign (fits.named (List.mem_cons_self ..) name)
      (inner.isExpression (fits.sub fun token member => by simp [member]))
      (fits.located (Expr.assign name equals inner).spans)
  | .looser inner => inner.isExpression fits
  | .join joins left right => by
    obtain ⟨text, known, same⟩ := textOf_operator (fits.spelled _ (by simp)) joins
    have first := left.isExpression (fits.sub fun token member => by simp [member])
    have second := right.isExpression (fits.sub fun token member => by simp [member])
    have located := fits.located (Expr.join joins left right).spans
    unfold joined at located ⊢
    rw [same]
    split
    · rename_i logical
      exact .logical (Level.logicalOperators_of_operators logical known) first second located
    · rename_i notLogical
      exact .binary (Level.binaryOperators_of_operators notLogical known) first second located
  | .sign signs inner => by
    have operand := inner.isExpression (fits.sub fun token member => by simp [member])
    have located := fits.located (Expr.sign signs inner).spans
    rcases signs with kind | kind
    · rw [textOf_mark (fits.spelled _ (List.mem_cons_self ..)) kind]
      exact .unary (by decide) operand located
    · rw [textOf_mark (fits.spelled _ (List.mem_cons_self ..)) kind]
      exact .unary (by decide) operand located
  | .call opens closes callee args =>
    .call (callee.isExpression (fits.sub fun token member => by simp [member]))
      (args.isExpression (fits.sub fun token member => by simp [member]))
      (fits.located (Expr.call opens closes callee args).spans)
  | .grouping opens closes inner =>
    .grouping (inner.isExpression (fits.sub fun token member => by simp [member]))
      (fits.located (Expr.grouping opens closes inner).spans)
  | .leaf alone => leaf_isExpression fits alone

theorem Args.isExpression {tokens : List Token} {args : List Node} (fits : Fits parts tokens) :
    Args tokens args → ∀ arg ∈ args, arg.IsExpression parts
  | .none => by simp
  | .some first later => by
    intro arg member
    rcases List.mem_cons.mp member with same | inside
    · rw [same]
      exact first.isExpression (fits.sub fun token member => by simp [member])
    · exact later.isExpression (fits.sub fun token member => by simp [member]) arg inside

theorem MoreArgs.isExpression {tokens : List Token} {args : List Node} (fits : Fits parts tokens) :
    MoreArgs tokens args → ∀ arg ∈ args, arg.IsExpression parts
  | .none => by simp
  | .next _ first later => by
    intro arg member
    rcases List.mem_cons.mp member with same | inside
    · rw [same]
      exact first.isExpression (fits.sub fun token member => by simp [member])
    · exact later.isExpression (fits.sub fun token member => by simp [member]) arg inside

end

/-- The span of a statement with a block reaches from its first token to its last one. -/
theorem Compound.spans {tokens : List Token} {node : Node × Span} : Compound tokens node → Spans tokens node.2
  | .if _ _ body => Spans.cons body.spans
  | @Compound.ifElse word tokens bodyTokens _ _ _ _ _ _ _ (@Alternative.else other _ _ _ _ _ inner) => by
    have whole := @Spans.cons word (tokens ++ bodyTokens ++ [other]) _ _ inner.spans
    simpa using whole
  | .while _ _ body => Spans.cons body.spans
  | @Compound.for _ target within tokens _ _ _ _ _ _ _ body =>
    @Spans.cons _ (target :: within :: tokens) _ _ body.spans
  | @Compound.function word target opening closing tokens _ _ _ _ _ _ _ _ body => by
    have whole := @Spans.cons word (target :: opening :: tokens ++ [closing]) _ _ body.spans
    simpa using whole
  | .block body => body.spans

theorem Simple.isStatement {tokens : List Token} {node : Node} (fits : Fits parts tokens)
    (derived : Simple tokens node) : node.IsStatement parts := by
  have sub : ∀ {used : List Token} {expr : Node × Span}, Expr 0 used expr → (∀ token ∈ used, token ∈ tokens) →
      expr.1.IsExpression parts := fun inner among => inner.isExpression (fits.sub among)
  cases derived with
  | print begins inner =>
    exact .printStmt (sub inner (by simp +contextual)) (fits.located (@Spans.cons _ [] _ _ inner.spans))
  | @declare _ target equals _ _ begins name _ inner =>
    exact .varDecl (fits.named (by simp) name) (sub inner (by simp +contextual))
      (fits.located (@Spans.cons _ [target, equals] _ _ inner.spans))
  | @declareEmpty _ target begins name =>
    exact .emptyVarDecl (fits.named (by simp) name) (fits.located (@Spans.cons _ [] _ _ (.single target)))
  | «return» begins inner =>
    exact .returnStmt (sub inner (by simp +contextual)) (fits.located (@Spans.cons _ [] _ _ inner.spans))
  | returnEmpty begins => exact .emptyReturnStmt (fits.located (.single _))
  | expr inner => exact .exprStmt (sub inner (by simp)) (fits.located inner.spans)

theorem Bounds.isBound {tokens : List Token} {range : Json × Json} (fits : Fits parts tokens)
    (derived : Bounds tokens range) : parts.IsBound range.1 ∧ (range.2 = .null ∨ parts.IsBound range.2) := by
  cases derived with
  | one bound => exact ⟨⟨_, rfl, fits.ints _ (by simp) (Or.inr bound)⟩, Or.inl rfl⟩
  | two bound _ secondBound =>
    exact ⟨⟨_, rfl, fits.ints _ (by simp) (Or.inr bound)⟩, Or.inr ⟨_, rfl, fits.ints _ (by simp) (Or.inr secondBound)⟩⟩

theorem MoreParams.isName {tokens : List Token} {params : List Json} (fits : Fits parts tokens)
    (derived : MoreParams tokens params) : ∀ param ∈ params, parts.IsName param := by
  induction derived with
  | none => simp
  | next _ name _ ih =>
    intro param member
    rcases List.mem_cons.mp member with same | inside
    · rw [same]
      exact fits.named (by simp) name
    · exact ih (fits.sub fun token member => by simp [member]) param inside

theorem Params.isName {tokens : List Token} {params : List Json} (fits : Fits parts tokens)
    (derived : Params tokens params) : ∀ param ∈ params, parts.IsName param := by
  cases derived with
  | none => simp
  | some name later =>
    intro param member
    rcases List.mem_cons.mp member with same | inside
    · rw [same]
      exact fits.named (by simp) name
    · exact later.isName (fits.sub fun token member => by simp [member]) param inside

/-- An alternative begins with the word for conditions or with a block. -/
theorem Compound.isBranch {first : Token} {tokens : List Token} {node : Node × Span}
    (branch : first.kind = .word .if ∨ first.kind = .mark .openCurly) (derived : Compound (first :: tokens) node) :
    node.1.IsBranch := by
  cases derived with
  | «if» => exact .ifStmt
  | ifElse => exact .ifStmt
  | «while» begins => rcases branch with kind | kind <;> simp [begins] at kind
  | «for» begins => rcases branch with kind | kind <;> simp [begins] at kind
  | function begins => rcases branch with kind | kind <;> simp [begins] at kind
  | block => exact .block

mutual

/-- Derived statements are statements of the language. -/
theorem Statements.isStatement {tokens : List Token} {nodes : List Node} (fits : Fits parts tokens) :
    Statements tokens nodes → ∀ node ∈ nodes, node.IsStatement parts
  | .none => by simp
  | .semicolon _ later => later.isStatement (fits.sub fun token member => by simp [member])
  | .last only => by
    intro node member
    rw [List.mem_singleton.mp member]
    exact only.isStatement fits
  | .simple first _ later => by
    intro node member
    rcases List.mem_cons.mp member with same | inside
    · rw [same]
      exact first.isStatement (fits.sub fun token member => by simp [member])
    · exact later.isStatement (fits.sub fun token member => by simp [member]) node inside
  | .compound first later => by
    intro node member
    rcases List.mem_cons.mp member with same | inside
    · rw [same]
      exact first.isStatement (fits.sub fun token member => by simp [member])
    · exact later.isStatement (fits.sub fun token member => by simp [member]) node inside

theorem Block.isStatement {tokens : List Token} {body : List Node × Span} (fits : Fits parts tokens) :
    Block tokens body → (Node.block body.1 (some (.ofSpan body.2))).IsStatement parts
  | .curly opens closes inner =>
    .block (inner.isStatement (fits.sub fun token member => by simp [member]))
      (fits.located (Block.curly opens closes inner).spans)

theorem Compound.isStatement {tokens : List Token} {node : Node × Span} (fits : Fits parts tokens) :
    Compound tokens node → node.1.IsStatement parts
  | .if begins inner body =>
    .ifStmt (inner.isExpression (fits.sub fun token member => by simp [member]))
      (body.isStatement (fits.sub fun token member => by simp [member]))
      (fits.located (Compound.if begins inner body).spans)
  | .ifElse begins inner body (.else word branch other) =>
    .ifElseStmt (inner.isExpression (fits.sub fun token member => by simp [member]))
      (body.isStatement (fits.sub fun token member => by simp [member])) (other.isBranch branch)
      (other.isStatement (fits.sub fun token member => by
        simp only [List.mem_cons, List.mem_append] at member ⊢
        tauto))
      (fits.located (Compound.ifElse begins inner body (.else word branch other)).spans)
  | .while begins inner body =>
    .whileStmt (inner.isExpression (fits.sub fun token member => by simp [member]))
      (body.isStatement (fits.sub fun token member => by simp [member]))
      (fits.located (Compound.while begins inner body).spans)
  | .for begins name within range body =>
    .forStmt (.emptyVarDecl (fits.named (by simp) name) (fits.locs _ (by simp) _ (by simp)))
      (range.isBound (fits.sub fun token member => by simp [member])).1
      (range.isBound (fits.sub fun token member => by simp [member])).2
      (body.isStatement (fits.sub fun token member => by simp [member]))
      (fits.located (Compound.for begins name within range body).spans)
  | .function begins name opens closes params body => by
    cases body.isStatement (fits.sub fun token member => by simp [member]) with
    | block inner =>
      exact .fnDecl (fits.named (by simp) name)
        (params.isName (fits.sub fun token member => by simp [member])) inner
        (fits.located (Compound.function begins name opens closes params body).spans)
  | .block body => body.isStatement fits

end

end PhyLang.Grammar
