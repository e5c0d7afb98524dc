import PhyLang.Proofs.Grammar.Derivation
import PhyLang.Token.Mode

namespace PhyLang.Grammar

open Source (Span)
open Token (Mode)

/-- Whether a kind may begin a statement without a block. -/
def beginsSimple : Kind → Bool
  | .word .print | .word .var | .word .return => true
  | kind => Mode.beginsOperand kind

/-- The kinds of literals and names. -/
def leafKinds : List Kind := [.int, .real, .string, .name]

theorem leaf_kind {token : Token} {node : Node} (alone : leaf? token = some node) : token.kind ∈ leafKinds := by
  unfold leaf? at alone
  split at alone
  next kind => simp [kind, leafKinds]
  next kind => simp [kind, leafKinds]
  next kind => simp [kind, leafKinds]
  next kind => simp [kind, leafKinds]
  next => cases alone

theorem leaf_begins {token : Token} {node : Node} (alone : leaf? token = some node) :
    Mode.beginsOperand token.kind := by
  have begins : ∀ kind ∈ leafKinds, Mode.beginsOperand kind := by decide
  exact begins token.kind (leaf_kind alone)

/-- An expression begins with an operand. -/
theorem Expr.first {rank : Nat} {tokens : List Token} {expr : Node × Span} :
    Expr rank tokens expr → ∃ first later, tokens = first :: later ∧ Mode.beginsOperand first.kind
  | .assign name _ _ => ⟨_, _, rfl, by rw [name]; rfl⟩
  | .looser inner => inner.first
  | .join _ left _ => by
    obtain ⟨first, later, rfl, begins⟩ := left.first
    exact ⟨first, _, rfl, begins⟩
  | .sign signs _ => by
    rcases signs with kind | kind
    · exact ⟨_, _, rfl, by rw [kind]; rfl⟩
    · exact ⟨_, _, rfl, by rw [kind]; rfl⟩
  | .call _ _ callee _ => by
    obtain ⟨first, later, rfl, begins⟩ := callee.first
    exact ⟨first, _, rfl, begins⟩
  | .grouping opens _ _ => ⟨_, _, rfl, by rw [opens]; rfl⟩
  | .leaf alone => ⟨_, _, rfl, leaf_begins alone⟩

theorem Expr.length_pos {rank : Nat} {tokens : List Token} {expr : Node × Span} (derived : Expr rank tokens expr) :
    0 < tokens.length := by
  obtain ⟨first, later, rfl, -⟩ := derived.first
  exact Nat.succ_pos _

theorem Simple.first {tokens : List Token} {node : Node} (derived : Simple tokens node) :
    ∃ first later, tokens = first :: later ∧ beginsSimple first.kind := by
  cases derived with
  | print begins => exact ⟨_, _, rfl, by rw [begins]; rfl⟩
  | declare begins => exact ⟨_, _, rfl, by rw [begins]; rfl⟩
  | declareEmpty begins => exact ⟨_, _, rfl, by rw [begins]; rfl⟩
  | «return» begins => exact ⟨_, _, rfl, by rw [begins]; rfl⟩
  | returnEmpty begins => exact ⟨_, _, rfl, by rw [begins]; rfl⟩
  | expr inner =>
    obtain ⟨first, later, rfl, begins⟩ := inner.first
    refine ⟨first, later, rfl, ?_⟩
    unfold beginsSimple
    split
    · rfl
    · rfl
    · rfl
    · exact begins

theorem Simple.length_pos {tokens : List Token} {node : Node} (derived : Simple tokens node) : 0 < tokens.length := by
  obtain ⟨first, later, rfl, -⟩ := derived.first
  exact Nat.succ_pos _

theorem Block.first {tokens : List Token} {body : List Node × Span} (derived : Block tokens body) :
    ∃ first later, tokens = first :: later ∧ first.kind = .mark .openCurly := by
  cases derived with
  | curly opens => exact ⟨_, _, rfl, opens⟩

theorem Compound.first {tokens : List Token} {node : Node × Span} (derived : Compound tokens node) :
    ∃ first later, tokens = first :: later ∧ beginsCompound first := by
  cases derived with
  | «if» begins => exact ⟨_, _, rfl, by rw [beginsCompound, begins]⟩
  | ifElse begins => exact ⟨_, _, rfl, by rw [beginsCompound, begins]⟩
  | «while» begins => exact ⟨_, _, rfl, by rw [beginsCompound, begins]⟩
  | «for» begins => exact ⟨_, _, rfl, by rw [beginsCompound, begins]⟩
  | function begins => exact ⟨_, _, rfl, by rw [beginsCompound, begins]⟩
  | block body =>
    obtain ⟨first, later, rfl, opens⟩ := body.first
    exact ⟨first, later, rfl, by rw [beginsCompound, opens]⟩

theorem beginsStatement_of_simple {kind : Kind} (begins : beginsSimple kind) : Mode.beginsStatement kind := by
  unfold beginsSimple at begins
  split at begins
  · rfl
  · rfl
  · rfl
  · unfold Mode.beginsStatement
    split <;> first | rfl | exact begins

theorem beginsStatement_of_compound {token : Token} (begins : beginsCompound token) :
    Mode.beginsStatement token.kind := by
  unfold beginsCompound at begins
  split at begins
  next kind => rw [kind]; rfl
  next kind => rw [kind]; rfl
  next kind => rw [kind]; rfl
  next kind => rw [kind]; rfl
  next kind => rw [kind]; rfl
  next => cases begins

/-- Statements begin with the beginning of a statement, if they have any tokens. -/
theorem Statements.first {tokens : List Token} {nodes : List Node} (derived : Statements tokens nodes) :
    ∀ first ∈ tokens.head?, Mode.beginsStatement first.kind := by
  intro first head
  cases derived with
  | none => cases head
  | last only =>
    obtain ⟨token, later, rfl, begins⟩ := only.first
    cases head
    exact beginsStatement_of_simple begins
  | semicolon ends =>
    cases head
    rw [ends]
    rfl
  | simple inner =>
    obtain ⟨token, later, rfl, begins⟩ := inner.first
    cases head
    exact beginsStatement_of_simple begins
  | compound inner =>
    obtain ⟨token, later, rfl, begins⟩ := inner.first
    cases head
    exact beginsStatement_of_compound begins

theorem Statements.eq_nil {nodes : List Node} (derived : Statements [] nodes) : nodes = [] := by
  generalize same : [] = tokens at derived
  cases derived with
  | none => rfl
  | semicolon => cases same
  | last only =>
    obtain ⟨_, _, rfl, -⟩ := only.first
    cases same
  | simple inner =>
    obtain ⟨_, _, rfl, -⟩ := inner.first
    cases same
  | compound inner =>
    obtain ⟨_, _, rfl, -⟩ := inner.first
    cases same

/-- What follows a semicolon is statements again. -/
theorem Statements.of_semicolon {mark : Token} {tokens : List Token} {nodes : List Node}
    (ends : mark.kind = .mark .semicolon) (derived : Statements (mark :: tokens) nodes) : Statements tokens nodes := by
  generalize same : mark :: tokens = all at derived
  cases derived with
  | none => cases same
  | semicolon _ later =>
    cases same
    exact later
  | last only =>
    obtain ⟨first, later, rfl, begins⟩ := only.first
    cases same
    rw [ends] at begins
    cases begins
  | simple inner =>
    obtain ⟨first, later, rfl, begins⟩ := inner.first
    cases same
    rw [ends] at begins
    cases begins
  | compound inner =>
    obtain ⟨first, later, rfl, begins⟩ := inner.first
    cases same
    rw [beginsCompound, ends] at begins
    cases begins

end PhyLang.Grammar
