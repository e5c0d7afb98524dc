import PhyLang.Proofs.Grammar.First
import PhyLang.Proofs.Token.Written

namespace PhyLang.Token.Mode

/-- Whether a kind is looked for in a mode and leads on as it does at the start of a statement or inside
an expression. -/
def Takes (mode : Mode) (kind : Kind) : Prop := mode.accepts kind ∧ mode.next kind = afterKind kind

/-- A mode where every operand may begin. -/
def TakesOperands (mode : Mode) : Prop := ∀ kind, beginsOperand kind → mode.Takes kind

/-- A mode where every statement may begin. -/
def TakesStatements (mode : Mode) : Prop := ∀ kind, beginsStatement kind → mode.Takes kind

theorem TakesStatements.operands {mode : Mode} (takes : mode.TakesStatements) : mode.TakesOperands := by
  intro kind begins
  refine takes kind ?_
  unfold beginsStatement
  split <;> first | rfl | exact begins

theorem takesOperands_operand : TakesOperands .operand := fun _ begins => ⟨begins, rfl⟩

theorem takesOperands_argument : TakesOperands .argument := fun kind begins => ⟨by simp [accepts, begins], rfl⟩

theorem takesOperands_result : TakesOperands .result := fun kind begins => ⟨by simp [accepts, begins], rfl⟩

theorem takesStatements_program : TakesStatements .program := fun _ begins => ⟨begins, rfl⟩

theorem takesStatements_block : TakesStatements .block := fun kind begins => ⟨by simp [accepts, begins], rfl⟩

theorem takesStatements_statement : TakesStatements .statement := fun kind begins => ⟨by simp [accepts, begins], rfl⟩

theorem takesStatements_afterBlock : TakesStatements .afterBlock := fun kind begins => ⟨by simp [accepts, begins], rfl⟩

/-- A mode where a statement may end. -/
def EndsStatement (mode : Mode) : Prop := mode.Takes (.mark .semicolon) ∧ mode.Takes (.mark .closeCurly)

theorem endsStatement_afterOperand : EndsStatement .afterOperand := ⟨⟨rfl, rfl⟩, ⟨rfl, rfl⟩⟩

end PhyLang.Token.Mode

namespace PhyLang.Grammar

open Source (Span)
open Token (Mode)
open Token.Mode (Leads Takes TakesOperands TakesStatements EndsStatement)

variable {tokens : List Token} {mode middle last : Mode}

/-- A token of a known kind leads to the mode that its kind leads to. -/
theorem leads_token {token : Token} {kind : Kind} (same : token.kind = kind) (accepted : mode.accepts kind)
    (next : mode.next kind = middle) (later : middle.Leads tokens last) : mode.Leads (token :: tokens) last := by
  subst same next
  exact .next accepted later

theorem leads_taken {token : Token} {kind : Kind} (same : token.kind = kind) (takes : mode.Takes kind)
    (later : (Mode.afterKind kind).Leads tokens last) : mode.Leads (token :: tokens) last :=
  leads_token same takes.1 takes.2 later

/-- An operator of a level is looked for after an operand. -/
theorem takes_operator {level : Level} {kind : Kind} (joins : level.holds kind) :
    Mode.afterOperand.accepts kind ∧ Mode.afterOperand.next kind = .operand := by
  cases level with
  | or | and =>
    cases beq_iff_eq.mp joins
    exact ⟨rfl, rfl⟩
  | equality | sum | product =>
    rcases Bool.or_eq_true_iff.mp joins with same | same
    · cases beq_iff_eq.mp same
      exact ⟨rfl, rfl⟩
    · cases beq_iff_eq.mp same
      exact ⟨rfl, rfl⟩
  | comparison =>
    simp only [Level.holds, Bool.or_eq_true, beq_iff_eq] at joins
    rcases joins with ((rfl | rfl) | rfl) | rfl <;> exact ⟨rfl, rfl⟩

theorem afterKind_leaf {token : Token} {node : Node} (alone : leaf? token = some node) :
    Mode.afterKind token.kind = .afterOperand := by
  have after : ∀ kind ∈ leafKinds, Mode.afterKind kind = .afterOperand := by decide
  exact after token.kind (leaf_kind alone)

mutual

/-- An expression leads from any mode where operands may begin to the mode after an operand. -/
theorem Expr.leads {mode : Mode} {rank : Nat} {tokens : List Token} {expr : Node × Span} (takes : mode.TakesOperands) :
    Expr rank tokens expr → mode.Leads tokens .afterOperand
  | .assign name equals inner => by
    have later := inner.leads Mode.takesOperands_operand
    exact leads_taken name (takes .name rfl) (leads_token equals rfl rfl later)
  | .looser inner => inner.leads takes
  | .join joins left right => by
    obtain ⟨accepted, next⟩ := takes_operator joins
    have later := right.leads Mode.takesOperands_operand
    exact (left.leads takes).append (leads_token rfl accepted next later)
  | .sign signs inner => by
    have later := inner.leads Mode.takesOperands_operand
    rcases signs with kind | kind
    · exact leads_taken kind (takes _ rfl) later
    · exact leads_taken kind (takes _ rfl) later
  | .call opens closes callee args => by
    have later : Mode.afterOperand.Leads _ _ := leads_token opens rfl rfl (args.leads closes)
    have whole := (callee.leads takes).append later
    rwa [← List.cons_append, ← List.append_assoc] at whole
  | .grouping opens closes inner => by
    have later := inner.leads Mode.takesOperands_operand
    exact leads_taken opens (takes _ rfl) (later.append (leads_token closes rfl rfl .none))
  | .leaf alone => by
    have begins := takes _ (leaf_begins alone)
    exact leads_token rfl begins.1 (begins.2.trans (afterKind_leaf alone)) .none

/-- The arguments of a call with the bracket after them lead to the mode after an operand. -/
theorem Args.leads {tokens : List Token} {closing : Token} {args : List Node} (closes : closing.kind = .mark .closeRound) :
    Args tokens args → Mode.argument.Leads (tokens ++ [closing]) .afterOperand
  | .none => leads_token closes rfl rfl .none
  | .some arg later => by
    have first := arg.leads Mode.takesOperands_argument
    exact (first.append later.leads).append (leads_token closes rfl rfl .none)

theorem MoreArgs.leads {tokens : List Token} {args : List Node} : MoreArgs tokens args →
    Mode.afterOperand.Leads tokens .afterOperand
  | .none => .none
  | .next separates arg later => by
    have inner := arg.leads Mode.takesOperands_operand
    have first : Mode.afterOperand.Leads _ _ := leads_token separates rfl rfl inner
    exact first.append later.leads

end

theorem MoreParams.leads {params : List Json} (derived : MoreParams tokens params) :
    Mode.afterParameter.Leads tokens .afterParameter := by
  induction derived with
  | none => exact .none
  | next separates name _ ih => exact leads_token separates rfl rfl (leads_token name rfl rfl ih)

/-- The parameters of a function with the bracket after them lead to its body. -/
theorem Params.leads {closing : Token} {params : List Json} (closes : closing.kind = .mark .closeRound)
    (derived : Params tokens params) : Mode.firstParameter.Leads (tokens ++ [closing]) .body := by
  cases derived with
  | none => exact leads_token closes rfl rfl .none
  | some name later => exact leads_token name rfl rfl (later.leads.append (leads_token closes rfl rfl .none))

/-- The bounds of a range lead to a mode where a block may begin. -/
theorem Bounds.leads {range : Json × Json} (derived : Bounds tokens range) :
    ∃ last, Mode.firstBound.Leads tokens last ∧ last.Takes (.mark .openCurly) := by
  cases derived with
  | one bound => exact ⟨_, leads_token bound rfl rfl .none, rfl, rfl⟩
  | two bound separates second =>
    exact ⟨_, leads_token bound rfl rfl (leads_token separates rfl rfl (leads_token second rfl rfl .none)), rfl, rfl⟩

theorem Simple.leads {node : Node} (takes : mode.TakesStatements) (derived : Simple tokens node) :
    ∃ last, mode.Leads tokens last ∧ last.EndsStatement := by
  cases derived with
  | print begins expr =>
    exact ⟨_, leads_taken begins (takes _ rfl) (expr.leads Mode.takesOperands_operand), Mode.endsStatement_afterOperand⟩
  | declare begins name equals value =>
    have later := value.leads Mode.takesOperands_operand
    exact ⟨_, leads_taken begins (takes _ rfl) (leads_token name rfl rfl (leads_token equals rfl rfl later)),
      Mode.endsStatement_afterOperand⟩
  | declareEmpty begins name =>
    exact ⟨_, leads_taken begins (takes _ rfl) (leads_token name rfl rfl .none), ⟨rfl, rfl⟩, ⟨rfl, rfl⟩⟩
  | «return» begins value =>
    exact ⟨_, leads_taken begins (takes _ rfl) (value.leads Mode.takesOperands_result), Mode.endsStatement_afterOperand⟩
  | returnEmpty begins => exact ⟨_, leads_taken begins (takes _ rfl) .none, ⟨rfl, rfl⟩, ⟨rfl, rfl⟩⟩
  | expr inner => exact ⟨_, inner.leads takes.operands, Mode.endsStatement_afterOperand⟩

theorem Compound.beginsStatement {node : Node × Span} (derived : Compound tokens node) :
    ∀ first, tokens.head? = some first → Mode.beginsStatement first.kind := by
  intro first head
  obtain ⟨token, later, rfl, begins⟩ := derived.first
  cases head
  exact beginsStatement_of_compound begins

mutual

/-- Statements lead to a mode where a block may end, if they begin in such a mode. -/
theorem Statements.leads {mode : Mode} {tokens : List Token} {nodes : List Node} (takes : mode.TakesStatements) :
    Statements tokens nodes →
    ∃ last, mode.Leads tokens last ∧ (mode.Takes (.mark .closeCurly) → last.Takes (.mark .closeCurly))
  | .none => ⟨mode, .none, id⟩
  | .last only => by
    obtain ⟨last, leads, ends⟩ := only.leads takes
    exact ⟨last, leads, fun _ => ends.2⟩
  | .semicolon ends later => by
    obtain ⟨last, leads, closes⟩ := later.leads Mode.takesStatements_statement
    exact ⟨last, leads_taken ends (takes _ rfl) leads, fun _ => closes ⟨rfl, rfl⟩⟩
  | .simple first ends later => by
    obtain ⟨middle, leads, semicolon, -⟩ := first.leads takes
    obtain ⟨last, leadsLater, closes⟩ := later.leads Mode.takesStatements_statement
    exact ⟨last, leads.append (leads_taken ends semicolon leadsLater), fun _ => closes ⟨rfl, rfl⟩⟩
  | .compound first later => by
    obtain ⟨last, leads, closes⟩ := later.leads Mode.takesStatements_afterBlock
    have taken := first.leads fun token head => takes _ (first.beginsStatement token head)
    exact ⟨last, taken.append leads, fun _ => closes ⟨rfl, rfl⟩⟩

theorem Block.leads {mode : Mode} {tokens : List Token} {body : List Node × Span} (takes : mode.Takes (.mark .openCurly)) :
    Block tokens body → mode.Leads tokens .afterBlock
  | .curly opens closes inner => by
    obtain ⟨last, leads, ends⟩ := inner.leads Mode.takesStatements_block
    exact leads_taken opens takes (leads.append (leads_taken closes (ends ⟨rfl, rfl⟩) .none))

/-- A statement with a block leads to the mode after a block from any mode that takes its first token. -/
theorem Compound.leads {mode : Mode} {tokens : List Token} {node : Node × Span}
    (takes : ∀ first, tokens.head? = some first → mode.Takes first.kind) : Compound tokens node →
    mode.Leads tokens .afterBlock
  | .if begins condition body => by
    have asked := condition.leads Mode.takesOperands_operand
    have opened : Mode.afterOperand.Leads _ _ := body.leads ⟨rfl, rfl⟩
    exact leads_taken begins (begins ▸ takes _ rfl) (asked.append opened)
  | .ifElse begins condition body other => by
    have asked := condition.leads Mode.takesOperands_operand
    have opened : Mode.afterOperand.Leads _ _ := (body.leads ⟨rfl, rfl⟩).append other.leads
    have whole := leads_taken begins (begins ▸ takes _ rfl) (asked.append opened)
    rwa [← List.append_assoc, ← List.cons_append] at whole
  | .while begins condition body => by
    have asked := condition.leads Mode.takesOperands_operand
    have opened : Mode.afterOperand.Leads _ _ := body.leads ⟨rfl, rfl⟩
    exact leads_taken begins (begins ▸ takes _ rfl) (asked.append opened)
  | .for begins name within range body => by
    obtain ⟨middle, bounded, opens⟩ := range.leads
    have repeated : Mode.beforeRange.Leads _ _ := leads_token within rfl rfl (bounded.append (body.leads opens))
    exact leads_taken begins (begins ▸ takes _ rfl) (leads_token name rfl rfl repeated)
  | .function begins name opens closes params body => by
    have later := (params.leads closes).append (body.leads ⟨rfl, rfl⟩)
    rw [List.append_assoc] at later
    exact leads_taken begins (begins ▸ takes _ rfl) (leads_token name rfl rfl (leads_token opens rfl rfl later))
  | .block body => by
    refine body.leads ?_
    obtain ⟨opening, later, rfl, opens⟩ := body.first
    exact opens ▸ takes opening rfl

/-- An alternative leads from the mode after a block to the mode after a block. -/
theorem Alternative.leads {tokens : List Token} {node : Node × Span} : Alternative tokens node →
    Mode.afterBlock.Leads tokens .afterBlock
  | .else begins branch inner => by
    refine leads_token begins rfl rfl (inner.leads fun first head => ?_)
    cases head
    rcases branch with kind | kind
    · exact kind ▸ ⟨rfl, rfl⟩
    · exact kind ▸ ⟨rfl, rfl⟩

end

/-- Each token of a derived program comes where its kind is looked for. -/
theorem program_leads {nodes : List Node} (derived : Statements tokens nodes) :
    ∃ last, Mode.program.Leads tokens last := by
  obtain ⟨last, leads, -⟩ := derived.leads Mode.takesStatements_program
  exact ⟨last, leads⟩

end PhyLang.Grammar
