import PhyLang.Proofs.Grammar.First
import PhyLang.Proofs.Token.Characters

namespace PhyLang.Grammar

open Source (Span)
open Token (bracketDepth bracketDepth_append)

/-- Tokens close the round brackets that they open, and no others. -/
def Balanced (tokens : List Token) : Prop := ∀ depth, bracketDepth depth tokens = depth

namespace Balanced

variable {tokens later : List Token}

theorem nil : Balanced [] := fun _ => rfl

theorem append (balanced : Balanced tokens) (balancedLater : Balanced later) : Balanced (tokens ++ later) := by
  intro depth
  rw [bracketDepth_append, balanced, balancedLater]

theorem cons {token : Token} {kind : Kind} (same : token.kind = kind) (flat : ∀ depth, kind.bracketed depth = depth)
    (balanced : Balanced tokens) : Balanced (token :: tokens) := by
  intro depth
  have step : bracketDepth depth (token :: tokens) = bracketDepth (token.kind.bracketed depth) tokens := rfl
  rw [step, same, flat, balanced]

theorem enclosed {opening closing : Token} (opens : opening.kind = .mark .openRound)
    (closes : closing.kind = .mark .closeRound) (balanced : Balanced tokens) :
    Balanced (opening :: tokens ++ [closing]) := by
  intro depth
  have opened : opening.kind.bracketed depth = depth + 1 := by rw [opens]; rfl
  have closed : closing.kind.bracketed (depth + 1) = depth := by rw [closes]; rfl
  calc bracketDepth depth (opening :: tokens ++ [closing])
      = bracketDepth (bracketDepth (opening.kind.bracketed depth) tokens) [closing] :=
        bracketDepth_append depth (opening :: tokens) [closing]
    _ = bracketDepth (depth + 1) [closing] := by rw [opened, balanced]
    _ = depth := closed

end Balanced

theorem bracketed_operator {level : Level} {kind : Kind} (joins : level.holds kind) (depth : Nat) :
    kind.bracketed depth = depth := by
  have round : level.holds (.mark .openRound) = false ∧ level.holds (.mark .closeRound) = false := by
    cases level <;> decide
  refine Kind.bracketed_other ?_ ?_ depth
  · rintro rfl
    exact Bool.false_ne_true (round.1.symm.trans joins)
  · rintro rfl
    exact Bool.false_ne_true (round.2.symm.trans joins)

theorem bracketed_leaf {token : Token} {node : Node} (alone : leaf? token = some node) (depth : Nat) :
    token.kind.bracketed depth = depth := by
  have others : ∀ kind ∈ leafKinds, kind ≠ .mark .openRound ∧ kind ≠ .mark .closeRound := by decide
  obtain ⟨noOpening, noClosing⟩ := others token.kind (leaf_kind alone)
  exact Kind.bracketed_other noOpening noClosing depth

mutual

theorem Expr.balanced {rank : Nat} {tokens : List Token} {expr : Node × Span} : Expr rank tokens expr → Balanced tokens
  | .assign name equals inner => .cons name (fun _ => rfl) (.cons equals (fun _ => rfl) inner.balanced)
  | .looser inner => inner.balanced
  | .join joins left right => left.balanced.append (.cons rfl (bracketed_operator joins) right.balanced)
  | .sign signs inner => by
    rcases signs with kind | kind
    · exact .cons kind (fun _ => rfl) inner.balanced
    · exact .cons kind (fun _ => rfl) inner.balanced
  | .call opens closes callee args => by
    have whole := callee.balanced.append (args.balanced.enclosed opens closes)
    rwa [List.cons_append, ← List.cons_append, ← List.append_assoc] at whole
  | .grouping opens closes inner => inner.balanced.enclosed opens closes
  | .leaf alone => .cons rfl (bracketed_leaf alone) .nil

theorem Args.balanced {tokens : List Token} {args : List Node} : Args tokens args → Balanced tokens
  | .none => .nil
  | .some arg later => arg.balanced.append later.balanced

theorem MoreArgs.balanced {tokens : List Token} {args : List Node} : MoreArgs tokens args → Balanced tokens
  | .none => .nil
  | .next separates arg later => .append (.cons separates (fun _ => rfl) arg.balanced) later.balanced

end

section

variable {tokens : List Token}

theorem MoreParams.balanced {params : List Json} (derived : MoreParams tokens params) : Balanced tokens := by
  induction derived with
  | none => exact .nil
  | next separates name _ ih => exact .cons separates (fun _ => rfl) (.cons name (fun _ => rfl) ih)

theorem Params.balanced {params : List Json} (derived : Params tokens params) : Balanced tokens := by
  cases derived with
  | none => exact .nil
  | some name later => exact .cons name (fun _ => rfl) later.balanced

theorem Bounds.balanced {range : Json × Json} (derived : Bounds tokens range) : Balanced tokens := by
  cases derived with
  | one bound => exact .cons bound (fun _ => rfl) .nil
  | two bound separates second =>
    exact .cons bound (fun _ => rfl) (.cons separates (fun _ => rfl) (.cons second (fun _ => rfl) .nil))

theorem Simple.balanced {node : Node} (derived : Simple tokens node) : Balanced tokens := by
  cases derived with
  | print begins expr => exact .cons begins (fun _ => rfl) expr.balanced
  | declare begins name equals value =>
    have declared := value.balanced.cons equals fun _ => rfl
    exact .cons begins (fun _ => rfl) (.cons name (fun _ => rfl) declared)
  | declareEmpty begins name => exact .cons begins (fun _ => rfl) (.cons name (fun _ => rfl) .nil)
  | «return» begins value => exact .cons begins (fun _ => rfl) value.balanced
  | returnEmpty begins => exact .cons begins (fun _ => rfl) .nil
  | expr inner => exact inner.balanced

end

mutual

theorem Statements.balanced {tokens : List Token} {nodes : List Node} : Statements tokens nodes → Balanced tokens
  | .none => .nil
  | .last only => only.balanced
  | .semicolon ends later => .cons ends (fun _ => rfl) later.balanced
  | .simple first ends later => first.balanced.append (.cons ends (fun _ => rfl) later.balanced)
  | .compound first later => first.balanced.append later.balanced

theorem Block.balanced {tokens : List Token} {body : List Node × Span} : Block tokens body → Balanced tokens
  | .curly opens closes inner => .append (.cons opens (fun _ => rfl) inner.balanced) (.cons closes (fun _ => rfl) .nil)

theorem Compound.balanced {tokens : List Token} {node : Node × Span} : Compound tokens node → Balanced tokens
  | .if begins condition body => .append (.cons begins (fun _ => rfl) condition.balanced) body.balanced
  | .ifElse begins condition body other =>
    .append (.append (.cons begins (fun _ => rfl) condition.balanced) body.balanced) other.balanced
  | .while begins condition body => .append (.cons begins (fun _ => rfl) condition.balanced) body.balanced
  | .for begins name within range body => by
    have repeated := range.balanced.cons within fun _ => rfl
    exact .append (.cons begins (fun _ => rfl) (.cons name (fun _ => rfl) repeated)) body.balanced
  | .function begins name opens closes params body => by
    have later := (params.balanced.enclosed opens closes).append body.balanced
    rw [List.append_assoc] at later
    exact .cons begins (fun _ => rfl) (.cons name (fun _ => rfl) later)
  | .block body => body.balanced

theorem Alternative.balanced {tokens : List Token} {node : Node × Span} : Alternative tokens node → Balanced tokens
  | .else begins _ inner => .cons begins (fun _ => rfl) inner.balanced

end

end PhyLang.Grammar
