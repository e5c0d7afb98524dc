import PhyLang.Proofs.Ast.Lowered
import PhyLang.Proofs.Grammar.Derivation

namespace PhyLang.Grammar

open Source (Span)

/-- Tokens some lines further down. -/
def allLowered (lines : Nat) (tokens : List Token) : List Token := tokens.map (Token.lowered lines)

theorem allLowered_append (lines : Nat) (tokens later : List Token) :
    allLowered lines (tokens ++ later) = allLowered lines tokens ++ allLowered lines later := List.map_append

/-- A node some lines further down, with what it spans. -/
def exprLowered (lines : Nat) (expr : Node × Span) : Node × Span := (expr.1.lowered lines, expr.2.lowered lines)

/-- The statements of a block some lines further down, with what the block spans. -/
def bodyLowered (lines : Nat) (body : List Node × Span) : List Node × Span :=
  (Node.allLowered lines body.1, body.2.lowered lines)

theorem kind_lowered {lines : Nat} {token : Token} {kind : Kind} (same : token.kind = kind) :
    (token.lowered lines).kind = kind := same

theorem leaf?_lowered (lines : Nat) {token : Token} {node : Node} (alone : leaf? token = some node) :
    leaf? (token.lowered lines) = some (node.lowered lines) := by
  have kind : (token.lowered lines).kind = token.kind := rfl
  unfold leaf? at alone ⊢
  rw [kind]
  split at alone <;> cases alone <;> rfl

theorem joined_lowered (lines : Nat) (level : Level) (operator : Token) (left right : Node × Span) :
    joined level (operator.lowered lines) (exprLowered lines left) (exprLowered lines right) =
      exprLowered lines (joined level operator left right) := by
  cases level <;> rfl

mutual

theorem Expr.lowered (lines : Nat) {rank : Nat} {tokens : List Token} {expr : Node × Span} :
    Expr rank tokens expr → Expr rank (allLowered lines tokens) (exprLowered lines expr)
  | .assign name equals inner => .assign (kind_lowered name) (kind_lowered equals) (inner.lowered lines)
  | .looser inner => .looser (inner.lowered lines)
  | .join joins left right => by
    rw [allLowered_append, ← joined_lowered]
    exact .join joins (left.lowered lines) (right.lowered lines)
  | .sign signs inner => .sign (signs.imp (kind_lowered) (kind_lowered)) (inner.lowered lines)
  | .call opens closes callee args => by
    rw [allLowered_append, allLowered_append]
    exact .call (kind_lowered opens) (kind_lowered closes) (callee.lowered lines) (args.lowered lines)
  | .grouping opens closes inner => by
    rw [allLowered_append]
    exact .grouping (kind_lowered opens) (kind_lowered closes) (inner.lowered lines)
  | .leaf alone => .leaf (leaf?_lowered lines alone)

theorem Args.lowered (lines : Nat) {tokens : List Token} {args : List Node} :
    Args tokens args → Args (allLowered lines tokens) (Node.allLowered lines args)
  | .none => .none
  | .some arg later => by
    rw [allLowered_append]
    exact .some (arg.lowered lines) (later.lowered lines)

theorem MoreArgs.lowered (lines : Nat) {tokens : List Token} {args : List Node} :
    MoreArgs tokens args → MoreArgs (allLowered lines tokens) (Node.allLowered lines args)
  | .none => .none
  | .next separates arg later => by
    rw [allLowered_append]
    exact .next (kind_lowered separates) (arg.lowered lines) (later.lowered lines)

end

section

variable (lines : Nat) {tokens : List Token}

theorem MoreParams.lowered {params : List Json} (derived : MoreParams tokens params) :
    MoreParams (allLowered lines tokens) params := by
  induction derived with
  | none => exact .none
  | next separates name _ ih => exact .next (kind_lowered separates) (kind_lowered name) ih

theorem Params.lowered {params : List Json} (derived : Params tokens params) :
    Params (allLowered lines tokens) params := by
  cases derived with
  | none => exact .none
  | some name later => exact .some (kind_lowered name) (later.lowered lines)

theorem Bounds.lowered {range : Json × Json} (derived : Bounds tokens range) :
    Bounds (allLowered lines tokens) range := by
  cases derived with
  | one bound => exact .one (kind_lowered bound)
  | two bound separates second => exact .two (kind_lowered bound) (kind_lowered separates) (kind_lowered second)

theorem Simple.lowered {node : Node} (derived : Simple tokens node) :
    Simple (allLowered lines tokens) (node.lowered lines) := by
  cases derived with
  | print begins expr => exact .print (kind_lowered begins) (expr.lowered lines)
  | declare begins name equals value =>
    exact .declare (kind_lowered begins) (kind_lowered name) (kind_lowered equals) (value.lowered lines)
  | declareEmpty begins name => exact .declareEmpty (kind_lowered begins) (kind_lowered name)
  | «return» begins value => exact .return (kind_lowered begins) (value.lowered lines)
  | returnEmpty begins => exact .returnEmpty (kind_lowered begins)
  | expr inner => exact .expr (inner.lowered lines)

end

mutual

theorem Statements.lowered (lines : Nat) {tokens : List Token} {nodes : List Node} :
    Statements tokens nodes → Statements (allLowered lines tokens) (Node.allLowered lines nodes)
  | .none => .none
  | .last only => .last (only.lowered lines)
  | .semicolon ends later => .semicolon (kind_lowered ends) (later.lowered lines)
  | .simple first ends later => by
    rw [allLowered_append]
    exact .simple (first.lowered lines) (kind_lowered ends) (later.lowered lines)
  | .compound first later => by
    rw [allLowered_append]
    exact .compound (first.lowered lines) (later.lowered lines)

theorem Block.lowered (lines : Nat) {tokens : List Token} {body : List Node × Span} :
    Block tokens body → Block (allLowered lines tokens) (bodyLowered lines body)
  | .curly opens closes inner => by
    rw [allLowered_append]
    exact .curly (kind_lowered opens) (kind_lowered closes) (inner.lowered lines)

theorem Compound.lowered (lines : Nat) {tokens : List Token} {node : Node × Span} :
    Compound tokens node → Compound (allLowered lines tokens) (exprLowered lines node)
  | .if begins condition body => by
    rw [allLowered_append]
    exact .if (kind_lowered begins) (condition.lowered lines) (body.lowered lines)
  | .ifElse begins condition body other => by
    rw [allLowered_append, allLowered_append]
    exact .ifElse (kind_lowered begins) (condition.lowered lines) (body.lowered lines) (other.lowered lines)
  | .while begins condition body => by
    rw [allLowered_append]
    exact .while (kind_lowered begins) (condition.lowered lines) (body.lowered lines)
  | .for begins name within range body => by
    rw [allLowered_append]
    exact .for (kind_lowered begins) (kind_lowered name) (kind_lowered within) (range.lowered lines)
      (body.lowered lines)
  | .function begins name opens closes params body => by
    rw [allLowered_append]
    exact .function (kind_lowered begins) (kind_lowered name) (kind_lowered opens) (kind_lowered closes)
      (params.lowered lines) (body.lowered lines)
  | .block body => .block (body.lowered lines)

theorem Alternative.lowered (lines : Nat) {tokens : List Token} {node : Node × Span} :
    Alternative tokens node → Alternative (allLowered lines tokens) (exprLowered lines node)
  | .else begins branch inner => .else (kind_lowered begins) branch (inner.lowered lines)

end

end PhyLang.Grammar
