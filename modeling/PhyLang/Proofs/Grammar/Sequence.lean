import PhyLang.Proofs.Grammar.Brackets
import PhyLang.Proofs.Grammar.Modes
import PhyLang.Proofs.Token.Continued
import PhyLang.Proofs.Token.Restart

namespace PhyLang.Grammar

open Source (Span)
open Token (Mode)

/-- No statement is open behind tokens. -/
def IsEnded (tokens : List Token) : Prop := ∀ token ∈ tokens.getLast?, token.kind.closes

variable {tokens later : List Token} {nodes others : List Node}

theorem IsEnded.of_append (ended : IsEnded (tokens ++ later)) : IsEnded later := by
  intro token last
  refine ended token ?_
  rw [List.getLast?_append, Option.mem_def.mp last]
  rfl

theorem IsEnded.of_cons {token : Token} (ended : IsEnded (token :: tokens)) : IsEnded tokens := by
  have split : IsEnded ([token] ++ tokens) := ended
  exact split.of_append

theorem isEnded_concat {token : Token} (closes : token.kind.closes) : IsEnded (tokens ++ [token]) := by
  intro last same
  rw [List.getLast?_concat] at same
  cases same
  exact closes

theorem not_isEnded_token {token : Token} {kind : Kind} (same : token.kind = kind) (leavesOpen : kind.closes = false) :
    ¬IsEnded [token] := by
  intro ended
  have closes := ended token rfl
  rw [same, leavesOpen] at closes
  cases closes

theorem not_isEnded_leaf {token : Token} {node : Node} (alone : leaf? token = some node) : ¬IsEnded [token] := by
  have leaveOpen : ∀ kind ∈ leafKinds, kind.closes = false := by decide
  exact not_isEnded_token rfl (leaveOpen token.kind (leaf_kind alone))

/-- An expression ends no statement. -/
theorem Expr.not_isEnded {rank : Nat} {tokens : List Token} {expr : Node × Span} :
    Expr rank tokens expr → IsEnded tokens → False
  | .assign _ _ inner, ended => inner.not_isEnded ended.of_cons.of_cons
  | .looser inner, ended => inner.not_isEnded ended
  | .join _ _ right, ended => right.not_isEnded ended.of_append.of_cons
  | .sign _ inner, ended => inner.not_isEnded ended.of_cons
  | .call _ closes _ _, ended => not_isEnded_token closes rfl ended.of_append
  | .grouping _ closes _, ended => not_isEnded_token closes rfl ended.of_append
  | .leaf alone, ended => not_isEnded_leaf alone ended

theorem Simple.not_isEnded {node : Node} (derived : Simple tokens node) : ¬IsEnded tokens := by
  intro ended
  cases derived with
  | print _ expr => exact expr.not_isEnded ended.of_cons
  | declare _ _ _ value => exact value.not_isEnded ended.of_cons.of_cons.of_cons
  | declareEmpty _ name => exact not_isEnded_token name rfl ended.of_cons
  | «return» _ value => exact value.not_isEnded ended.of_cons
  | returnEmpty begins => exact not_isEnded_token begins rfl ended
  | expr inner => exact inner.not_isEnded ended

/-- Statements that are ended go on with any statements. -/
theorem Statements.append {tokens later : List Token} {nodes others : List Node} :
    Statements tokens nodes → IsEnded tokens → Statements later others → Statements (tokens ++ later) (nodes ++ others)
  | .none, _, derivedLater => derivedLater
  | .last only, ended, _ => absurd ended only.not_isEnded
  | .semicolon ends rest, ended, derivedLater => .semicolon ends (rest.append ended.of_cons derivedLater)
  | .simple first ends rest, ended, derivedLater => by
    rw [List.append_assoc]
    exact .simple first ends (rest.append ended.of_append.of_cons derivedLater)
  | .compound first rest, ended, derivedLater => by
    rw [List.append_assoc]
    exact .compound first (rest.append ended.of_append derivedLater)

/-- A semicolon ends statements, and says nothing where none is open. -/
theorem Statements.ended {mark : Token} {tokens : List Token} {nodes : List Node} :
    Statements tokens nodes → mark.kind = .mark .semicolon → Statements (tokens ++ [mark]) nodes
  | .none, ends => .semicolon ends .none
  | .last only, ends => .simple only ends .none
  | .semicolon inner rest, ends => .semicolon inner (rest.ended ends)
  | .simple first inner rest, ends => by
    rw [List.append_assoc]
    exact .simple first inner (rest.ended ends)
  | .compound first rest, ends => by
    rw [List.append_assoc]
    exact .compound first (rest.ended ends)

end PhyLang.Grammar

namespace PhyLang.Token.Mode

open Grammar (IsEnded)

variable {mode last : Mode} {tokens : List Token}

theorem next_semicolon (accepted : mode.accepts (.mark .semicolon)) : mode.next (.mark .semicolon) = .statement := by
  revert accepted
  cases mode <;> decide

theorem next_openCurly (accepted : mode.accepts (.mark .openCurly)) : mode.next (.mark .openCurly) = .block := by
  revert accepted
  cases mode <;> decide

theorem next_closeCurly (accepted : mode.accepts (.mark .closeCurly)) : mode.next (.mark .closeCurly) = .afterBlock := by
  revert accepted
  cases mode <;> decide

theorem restarts_next {kind : Kind} (accepted : mode.accepts kind) (closes : kind.closes) : (mode.next kind).Restarts := by
  unfold Kind.closes at closes
  split at closes
  · exact next_semicolon accepted ▸ restarts_statement
  · exact next_openCurly accepted ▸ restarts_block
  · exact next_closeCurly accepted ▸ restarts_afterBlock
  · cases closes

/-- Behind a token that leaves no statement open a program might begin. -/
theorem Leads.restarts (leads : mode.Leads tokens last) (ended : IsEnded tokens)
    (start : tokens = [] → mode.Restarts) : last.Restarts := by
  induction leads with
  | none => exact start rfl
  | @next mode last token later accepted _ ih =>
    -- Only behind the last token does the mode have to be one of those.
    refine ih ended.of_cons fun none => ?_
    subst none
    exact restarts_next accepted (ended token rfl)

/-- A token is looked for in the mode behind those before it. -/
theorem Leads.accepts {token : Token} {later : List Token} (leads : mode.Leads (tokens ++ token :: later) last) :
    (mode.after tokens).accepts token.kind := by
  induction tokens generalizing mode with
  | nil =>
    cases leads with
    | next accepted _ => exact accepted
  | cons first tokens ih =>
    cases leads with
    | next _ rest => exact ih rest

theorem Leads.eq_after (leads : mode.Leads tokens last) : last = mode.after tokens := by
  induction leads with
  | none => rfl
  | next _ _ ih => exact ih

end PhyLang.Token.Mode
