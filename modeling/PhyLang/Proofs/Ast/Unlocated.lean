import PhyLang.Ast.Basic

namespace PhyLang.Node

mutual

/-- A tree without its locations. -/
def unlocated : Node → Node
  | .absent => .absent
  | .exprStmt expr _ => .exprStmt (unlocated expr) none
  | .printStmt expr _ => .printStmt (unlocated expr) none
  | .varDecl name value _ => .varDecl name (unlocated value) none
  | .block statements _ => .block (allUnlocated statements) none
  | .ifStmt condition thenBranch elseBranch _ =>
    .ifStmt (unlocated condition) (unlocated thenBranch) (unlocated elseBranch) none
  | .whileStmt condition body _ => .whileStmt (unlocated condition) (unlocated body) none
  | .forStmt placeholder start stop body _ => .forStmt (unlocated placeholder) start stop (unlocated body) none
  | .fnDecl name params body _ => .fnDecl name params (allUnlocated body) none
  | .returnStmt value _ => .returnStmt (unlocated value) none
  | .binary operator left right _ => .binary operator (unlocated left) (unlocated right) none
  | .assign name value _ => .assign name (unlocated value) none
  | .grouping expr _ => .grouping (unlocated expr) none
  | .intLiteral value _ => .intLiteral value none
  | .realLiteral value _ => .realLiteral value none
  | .strLiteral value _ => .strLiteral value none
  | .identifier name _ => .identifier name none
  | .unary operator right _ => .unary operator (unlocated right) none
  | .logical operator left right _ => .logical operator (unlocated left) (unlocated right) none
  | .call callee args _ => .call (unlocated callee) (allUnlocated args) none

/-- Trees without their locations, one after the other. -/
def allUnlocated : List Node → List Node
  | [] => []
  | node :: rest => unlocated node :: allUnlocated rest

end

/-- Whether two trees are the same apart from locations. -/
def SameTree (node other : Node) : Prop := node.unlocated = other.unlocated

/-- Whether two lists of trees are the same apart from locations. -/
def SameTrees (nodes others : List Node) : Prop := allUnlocated nodes = allUnlocated others

end PhyLang.Node
