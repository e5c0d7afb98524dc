import PhyLang.Proofs.Ast.Shape

namespace PhyLang.Node

/-- The nodes that stand directly in a node, empty places included. -/
def children : Node → List Node
  | .absent | .intLiteral _ _ | .realLiteral _ _ | .strLiteral _ _ | .identifier _ _ => []
  | .exprStmt inner _ | .printStmt inner _ | .varDecl _ inner _ | .returnStmt inner _ | .assign _ inner _
  | .grouping inner _ | .unary _ inner _ => [inner]
  | .binary _ left right _ | .logical _ left right _ => [left, right]
  | .block nodes _ | .fnDecl _ _ nodes _ => nodes
  | .ifStmt condition thenBranch elseBranch _ => [condition, thenBranch, elseBranch]
  | .whileStmt condition body _ => [condition, body]
  | .forStmt placeholder _ _ body _ => [placeholder, body]
  | .call callee args _ => callee :: args

/-- The first node stands somewhere in the second, or is the second. -/
inductive Within : Node → Node → Prop
  | same (node : Node) : Within node node
  | child {node parent root : Node} (member : node ∈ parent.children) (inside : Within parent root) : Within node root

theorem Within.of_child {node root : Node} (member : node ∈ root.children) : node.Within root :=
  .child member (.same root)

theorem Within.trans {node middle root : Node} (inner : node.Within middle) (outer : middle.Within root) :
    node.Within root := by
  induction inner with
  | same => exact outer
  | child member _ ih => exact .child member (ih outer)

/-- What stands in a tree is the tree or stands in a child of it. -/
theorem Within.eq_or_child {node root : Node} (inside : node.Within root) :
    node = root ∨ ∃ child ∈ root.children, node.Within child := by
  induction inside with
  | same => exact .inl rfl
  | child member _ ih =>
    rcases ih with rfl | ⟨child, childMember, inside⟩
    · exact .inr ⟨_, member, .same _⟩
    · exact .inr ⟨child, childMember, .child member inside⟩

/-- A node that stands in its place, or an empty place. -/
def IsPlaced (parts : Parts) (node : Node) : Prop :=
  node = .absent ∨ node.IsExpression parts ∨ node.IsStatement parts

namespace IsPlaced

variable {parts : Parts} {node : Node}

theorem of_expression {expr : Node} (shape : expr.IsExpression parts) : ∀ child ∈ expr.children, child.IsPlaced parts := by
  cases shape with
  | assign _ inner _ | unary _ inner _ | grouping inner _ => exact List.forall_mem_singleton.mpr (.inr (.inl inner))
  | logical _ first second _ | binary _ first second _ =>
    exact List.forall_mem_cons.mpr ⟨.inr (.inl first), List.forall_mem_singleton.mpr (.inr (.inl second))⟩
  | call called inner _ =>
    exact List.forall_mem_cons.mpr ⟨.inr (.inl called), fun arg member => .inr (.inl (inner arg member))⟩
  | intLiteral _ _ | realLiteral _ | strLiteral _ | identifier _ _ => exact List.forall_mem_nil _

theorem of_statement {statement : Node} (shape : statement.IsStatement parts) :
    ∀ child ∈ statement.children, child.IsPlaced parts := by
  cases shape with
  | exprStmt inner _ | printStmt inner _ | varDecl _ inner _ | returnStmt inner _ =>
    exact List.forall_mem_singleton.mpr (.inr (.inl inner))
  | emptyVarDecl _ _ | emptyReturnStmt _ => exact List.forall_mem_singleton.mpr (.inl rfl)
  | block inner _ | fnDecl _ _ inner _ => exact fun child member => .inr (.inr (inner child member))
  | ifStmt asked inner _ =>
    exact List.forall_mem_cons.mpr ⟨.inr (.inl asked),
      List.forall_mem_cons.mpr ⟨.inr (.inr inner), List.forall_mem_singleton.mpr (.inl rfl)⟩⟩
  | ifElseStmt asked inner _ alternative _ =>
    exact List.forall_mem_cons.mpr ⟨.inr (.inl asked),
      List.forall_mem_cons.mpr ⟨.inr (.inr inner), List.forall_mem_singleton.mpr (.inr (.inr alternative))⟩⟩
  | whileStmt asked inner _ =>
    exact List.forall_mem_cons.mpr ⟨.inr (.inl asked), List.forall_mem_singleton.mpr (.inr (.inr inner))⟩
  | forStmt placeholder _ _ inner _ =>
    exact List.forall_mem_cons.mpr ⟨.inr (.inr placeholder), List.forall_mem_singleton.mpr (.inr (.inr inner))⟩

theorem child (placed : node.IsPlaced parts) : ∀ child ∈ node.children, child.IsPlaced parts := by
  rcases placed with rfl | expression | statement
  · exact List.forall_mem_nil _
  · exact of_expression expression
  · exact of_statement statement

/-- What stands within a node that stands in its place does so too. -/
theorem within {root : Node} (placed : root.IsPlaced parts) (inside : node.Within root) : node.IsPlaced parts := by
  induction inside with
  | same => exact placed
  | child member _ ih => exact (ih placed).child _ member

theorem located (placed : node.IsPlaced parts) (present : node ≠ .absent) : parts.loc node.loc? := by
  rcases placed with rfl | expression | statement
  · exact absurd rfl present
  · cases expression <;> assumption
  · cases statement <;> assumption

end IsPlaced

end PhyLang.Node
