import PhyLang.Proofs.Ast.Ungrouped
import PhyLang.Proofs.Interpreter.CallStack
import PhyLang.Proofs.Interpreter.Isolation
import PhyLang.Proofs.Interpreter.Runnable
import PhyLang.Proofs.Scope.Map

namespace PhyLang

namespace Node

mutual

/-- A tree without its locations and without the parentheses around its expressions. A tree that is no program
may have parentheses around anything else too, where they matter and stay. -/
def bare : Node → Node
  | .absent => .absent
  | .exprStmt expr _ => .exprStmt (bare expr) none
  | .printStmt expr _ => .printStmt (bare expr) none
  | .varDecl name value _ => .varDecl name (bare value) none
  | .block statements _ => .block (allBare statements) none
  | .ifStmt condition thenBranch elseBranch _ => .ifStmt (bare condition) (bare thenBranch) (bare elseBranch) none
  | .whileStmt condition body _ => .whileStmt (bare condition) (bare body) none
  | .forStmt placeholder start stop body _ => .forStmt (bare placeholder) start stop (bare body) none
  | .fnDecl name params body _ => .fnDecl name params (allBare body) none
  | .returnStmt value _ => .returnStmt (bare value) none
  | .binary operator left right _ => .binary operator (bare left) (bare right) none
  | .assign name value _ => .assign name (bare value) none
  | .grouping expr _ => if expr.isExpression then bare expr else .grouping (bare expr) none
  | .intLiteral value _ => .intLiteral value none
  | .realLiteral value _ => .realLiteral value none
  | .strLiteral value _ => .strLiteral value none
  | .identifier name _ => .identifier name none
  | .unary operator right _ => .unary operator (bare right) none
  | .logical operator left right _ => .logical operator (bare left) (bare right) none
  | .call callee args _ => .call (bare callee) (allBare args) none

/-- Bare trees, one after the other. -/
def allBare : List Node → List Node
  | [] => []
  | node :: rest => bare node :: allBare rest

end

theorem allBare_eq_map (nodes : List Node) : allBare nodes = nodes.map bare := by
  induction nodes with
  | nil => rfl
  | cons node rest ih => exact congrArg (node.bare :: ·) ih

theorem allUngrouped_eq_map (nodes : List Node) : allUngrouped nodes = nodes.map ungrouped := by
  induction nodes with
  | nil => rfl
  | cons node rest ih => exact congrArg (node.ungrouped :: ·) ih

theorem bare_grouping_eq {expr : Node} {loc : Option Loc} (inner : expr.isExpression) :
    (Node.grouping expr loc).bare = expr.bare := by
  rw [bare, if_pos inner]

theorem bare_grouping {expr : Node} {loc : Option Loc} (other : expr.isExpression = false) :
    (Node.grouping expr loc).bare = .grouping expr.bare none := by
  rw [bare, other]
  rfl

theorem isExpression_bare (node : Node) : node.bare.isExpression = node.isExpression := by
  cases node with
  | grouping expr loc =>
    cases inner : expr.isExpression with
    | true =>
      rw [bare_grouping_eq inner]
      exact (isExpression_bare expr).trans inner
    | false =>
      rw [bare_grouping inner]
      rfl
  | _ => rfl

/-- No parentheses around an expression. -/
def IsOpened : Node → Prop
  | .grouping expr _ => expr.isExpression = false
  | _ => True

/-- Two nodes of one kind with parts that are bare the same. -/
inductive Alike : Node → Node → Prop
  | absent : Alike .absent .absent
  | exprStmt {expr expr' loc loc'} (inner : expr.bare = expr'.bare) : Alike (.exprStmt expr loc) (.exprStmt expr' loc')
  | printStmt {expr expr' loc loc'} (inner : expr.bare = expr'.bare) :
      Alike (.printStmt expr loc) (.printStmt expr' loc')
  | varDecl {name value value' loc loc'} (inner : value.bare = value'.bare) :
      Alike (.varDecl name value loc) (.varDecl name value' loc')
  | block {nodes nodes' loc loc'} (inner : allBare nodes = allBare nodes') : Alike (.block nodes loc) (.block nodes' loc')
  | ifStmt {condition condition' first first' second second' loc loc'} (asked : condition.bare = condition'.bare)
      (taken : first.bare = first'.bare) (other : second.bare = second'.bare) :
      Alike (.ifStmt condition first second loc) (.ifStmt condition' first' second' loc')
  | whileStmt {condition condition' body body' loc loc'} (asked : condition.bare = condition'.bare)
      (inner : body.bare = body'.bare) : Alike (.whileStmt condition body loc) (.whileStmt condition' body' loc')
  | forStmt {placeholder placeholder' start stop body body' loc loc'} (declared : placeholder.bare = placeholder'.bare)
      (inner : body.bare = body'.bare) :
      Alike (.forStmt placeholder start stop body loc) (.forStmt placeholder' start stop body' loc')
  | fnDecl {name params body body' loc loc'} (inner : allBare body = allBare body') :
      Alike (.fnDecl name params body loc) (.fnDecl name params body' loc')
  | returnStmt {value value' loc loc'} (inner : value.bare = value'.bare) :
      Alike (.returnStmt value loc) (.returnStmt value' loc')
  | binary {operator left left' right right' loc loc'} (first : left.bare = left'.bare)
      (second : right.bare = right'.bare) : Alike (.binary operator left right loc) (.binary operator left' right' loc')
  | assign {name value value' loc loc'} (inner : value.bare = value'.bare) :
      Alike (.assign name value loc) (.assign name value' loc')
  | grouping {expr expr' loc loc'} (inner : expr.bare = expr'.bare) : Alike (.grouping expr loc) (.grouping expr' loc')
  | intLiteral {value loc loc'} : Alike (.intLiteral value loc) (.intLiteral value loc')
  | realLiteral {value loc loc'} : Alike (.realLiteral value loc) (.realLiteral value loc')
  | strLiteral {value loc loc'} : Alike (.strLiteral value loc) (.strLiteral value loc')
  | identifier {name loc loc'} : Alike (.identifier name loc) (.identifier name loc')
  | unary {operator right right' loc loc'} (inner : right.bare = right'.bare) :
      Alike (.unary operator right loc) (.unary operator right' loc')
  | logical {operator left left' right right' loc loc'} (first : left.bare = left'.bare)
      (second : right.bare = right'.bare) :
      Alike (.logical operator left right loc) (.logical operator left' right' loc')
  | call {callee callee' args args' loc loc'} (called : callee.bare = callee'.bare)
      (inner : allBare args = allBare args') : Alike (.call callee args loc) (.call callee' args' loc')

theorem alike_of_bare {node node' : Node} (same : node.bare = node'.bare) (opened : node.IsOpened)
    (opened' : node'.IsOpened) : Alike node node' := by
  cases node with
  | grouping expr loc =>
    rw [bare_grouping opened] at same
    cases node' with
    | grouping =>
      rw [bare_grouping opened'] at same
      exact .grouping (Node.grouping.inj same).1
    | _ => cases same
  | _ =>
    cases node' with
    | grouping =>
      rw [bare_grouping opened'] at same
      cases same
    | _ =>
      -- Nodes of different kinds stay different, and those of one kind have the same parts.
      first
      | (injection same; done)
      | (injections; subst_vars; constructor <;> assumption)

theorem isStatement_of_isExpression {node : Node} (inner : node.isExpression) : node.isStatement = false := by
  cases node <;> first | rfl | cases inner

theorem declaredName?_of_isExpression {node : Node} (inner : node.isExpression) : node.declaredName? = none := by
  cases node <;> first | rfl | cases inner

theorem isStatement_bare (node : Node) : node.bare.isStatement = node.isStatement := by
  cases node with
  | grouping expr loc =>
    cases inner : expr.isExpression with
    | true =>
      rw [bare_grouping_eq inner]
      exact isStatement_of_isExpression ((isExpression_bare expr).trans inner)
    | false =>
      rw [bare_grouping inner]
      rfl
  | _ => rfl

theorem declaredName?_bare (node : Node) : node.bare.declaredName? = node.declaredName? := by
  cases node with
  | grouping expr loc =>
    cases inner : expr.isExpression with
    | true =>
      rw [bare_grouping_eq inner]
      exact declaredName?_of_isExpression ((isExpression_bare expr).trans inner)
    | false =>
      rw [bare_grouping inner]
      rfl
  | _ => rfl

theorem bare_eq_absent {node : Node} (empty : node.bare = .absent) : node = .absent := by
  cases node with
  | absent => rfl
  | grouping expr loc =>
    cases inner : expr.isExpression with
    | true =>
      rw [bare_grouping_eq inner] at empty
      rw [← isExpression_bare, empty] at inner
      cases inner
    | false =>
      rw [bare_grouping inner] at empty
      cases empty
  | _ => cases empty

theorem isOpened_of_isStatement {node : Node} (statement : node.isStatement) : node.IsOpened := by
  cases node with
  | grouping => cases statement
  | _ => trivial

/-- In a program all parentheses are around expressions. -/
theorem IsExpression.ungrouped_eq {parts : Parts} {node : Node} (shape : node.IsExpression parts) :
    node.ungrouped = node.bare := by
  induction shape with
  | assign _ _ _ inner => exact congrArg (Node.assign _ · none) inner
  | logical _ _ _ _ first second => exact congrArg₂ (Node.logical _ · · none) first second
  | binary _ _ _ _ first second => exact congrArg₂ (Node.binary _ · · none) first second
  | unary _ _ _ inner => exact congrArg (Node.unary _ · none) inner
  | call _ _ _ called inner =>
    refine congrArg₂ (Node.call · · none) called ?_
    rw [allUngrouped_eq_map, allBare_eq_map]
    exact List.map_congr_left inner
  | grouping shape _ inner => exact inner.trans (bare_grouping_eq shape.sort).symm
  | intLiteral | realLiteral | strLiteral | identifier => rfl

theorem IsStatement.ungrouped_eq {parts : Parts} {node : Node} (shape : node.IsStatement parts) :
    node.ungrouped = node.bare := by
  induction shape with
  | exprStmt inner _ => exact congrArg (Node.exprStmt · none) inner.ungrouped_eq
  | printStmt inner _ => exact congrArg (Node.printStmt · none) inner.ungrouped_eq
  | varDecl _ inner _ => exact congrArg (Node.varDecl _ · none) inner.ungrouped_eq
  | emptyVarDecl | emptyReturnStmt => rfl
  | block _ _ inner =>
    refine congrArg (Node.block · none) ?_
    rw [allUngrouped_eq_map, allBare_eq_map]
    exact List.map_congr_left inner
  | ifStmt asked _ _ inner => exact congrArg₂ (Node.ifStmt · · .absent none) asked.ungrouped_eq inner
  | ifElseStmt asked _ _ _ _ inner alternative =>
    change Node.ifStmt (ungrouped _) (ungrouped _) (ungrouped _) none = _
    rw [asked.ungrouped_eq, inner, alternative]
    rfl
  | whileStmt asked _ _ inner => exact congrArg₂ (Node.whileStmt · · none) asked.ungrouped_eq inner
  | forStmt _ _ _ _ _ placeholder inner => exact congrArg₂ (Node.forStmt · _ _ · none) placeholder inner
  | fnDecl _ _ _ _ inner =>
    refine congrArg (Node.fnDecl _ _ · none) ?_
    rw [allUngrouped_eq_map, allBare_eq_map]
    exact List.map_congr_left inner
  | returnStmt inner _ => exact congrArg (Node.returnStmt · none) inner.ungrouped_eq

end Node

/-- A value whose functions have no locations and no redundant parentheses. -/
def Value.bare : Value → Value
  | .fn closure => .fn { closure with body := Node.allBare closure.body, loc := none }
  | .signal value => .signal value.bare
  | value => value

namespace Value

theorem bare_of_isPlain {v : Value} (plain : v.IsPlain) : v.bare = v := by
  cases v with
  | fn | signal => exact plain.elim
  | _ => rfl

theorem shownInside_bare (v : Value) : v.bare.shownInside = v.shownInside := by
  induction v with
  | signal v ih => simp only [bare, shownInside, ih]
  | _ => rfl

theorem text_bare (v : Value) : v.bare.text = v.text := by
  cases v with
  | signal v => exact shownInside_bare (.signal v)
  | _ => rfl

theorem typeName_bare (v : Value) : v.bare.typeName = v.typeName := by
  cases v <;> rfl

theorem isNull_bare (v : Value) : v.bare.isNull = v.isNull := by
  cases v <;> rfl

theorem arity?_bare (v : Value) : v.bare.arity? = v.arity? := by
  cases v <;> rfl

theorem isCallable_bare (v : Value) : v.bare.isCallable = v.isCallable := by
  cases v <;> rfl

theorem calleeName?_bare (v : Value) : Run.calleeName? v.bare = Run.calleeName? v := by
  cases v <;> rfl

/-- What does not depend on locations and parentheses is the same for values that are bare the same. -/
theorem eq_of_bare {α : Type} {f : Value → α} (kept : ∀ v, f v.bare = f v) {v w : Value} (same : v.bare = w.bare) :
    f v = f w := by
  rw [← kept v, same, kept w]

/-- Of two values that are bare the same both are one truth value, or neither is one. -/
theorem bool_or_of_bare {v w : Value} (same : v.bare = w.bare) :
    (∃ b, v = .bool b ∧ w = .bool b) ∨ (∀ b, v ≠ .bool b) ∧ ∀ b, w ≠ .bool b := by
  cases v with
  | bool b =>
    cases w with
    | bool => exact .inl ⟨b, rfl, same.symm⟩
    | _ => cases same
  | _ =>
    cases w with
    | bool => cases same
    | _ => exact .inr ⟨nofun, nofun⟩

theorem apply_bare (op : BinaryOperator) (left right : Value) : apply op left.bare right.bare = apply op left right := by
  cases left <;> cases right <;> first | rfl | cases op <;> rfl

theorem operate_bare (left right : Value) (operator : String) :
    operate left.bare right.bare operator = operate left right operator := by
  unfold operate
  split
  · exact apply_bare ..
  · rfl

theorem negate_bare (v : Value) (operator : String) : negate v.bare operator = negate v operator := by
  cases v <;> rfl

end Value

/-- A cause with the value that it carries, if any, made bare. -/
def Cause.bare : Cause → Cause
  | .returned v => .returned v.bare
  | cause => cause

/-- An error without locations. -/
def RuntimeError.bare : RuntimeError → RuntimeError
  | .raised cause _ => .raised cause.bare none
  | .inCall name inner _ => .inCall name inner.bare none

theorem Cause.kind_bare (cause : Cause) : cause.bare.kind = cause.kind := by
  cases cause <;> rfl

theorem Cause.message_bare (cause : Cause) : cause.bare.message = cause.message := by
  cases cause with
  | returned v => exact congrArg ("return outside of a function: " ++ ·) v.text_bare
  | _ => rfl

namespace RuntimeError

theorem kind_bare (e : RuntimeError) : e.bare.kind = e.kind := by
  cases e with
  | raised cause _ => exact cause.kind_bare
  | inCall => rfl

theorem chain_bare (e : RuntimeError) : e.bare.chain = e.chain.map bare := by
  induction e with
  | raised => rfl
  | inCall name inner loc ih => simp only [bare, chain, ih, List.map_cons]

theorem kinds_bare (e : RuntimeError) : e.bare.chain.map kind = e.chain.map kind := by
  rw [chain_bare, List.map_map]
  exact List.map_congr_left fun part _ => part.kind_bare

/-- The innermost error is that of a cause, whose message names no location. -/
theorem innermost_message_bare (e : RuntimeError) : e.bare.innermost.message = e.innermost.message := by
  induction e with
  | raised cause _ => exact cause.message_bare
  | inCall _ _ _ ih => exact ih

end RuntimeError

/-- A stop with its error, if any, without locations. -/
def Stop.bare : Stop → Stop
  | .error e => .error e.bare
  | stop => stop

/-- A machine whose values are bare. -/
def Machine.bare (m : Machine) : Machine :=
  { m with heap := m.heap.map Value.bare, trail := m.trail.map (List.map Value.bare) }

end PhyLang
