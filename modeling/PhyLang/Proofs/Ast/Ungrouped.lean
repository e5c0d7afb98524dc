import PhyLang.Proofs.Ast.Shape

namespace PhyLang.Node

mutual

/-- A tree without its locations, and with every expression in parentheses replaced by the expression itself. -/
def ungrouped : Node → Node
  | .absent => .absent
  | .exprStmt expr _ => .exprStmt (ungrouped expr) none
  | .printStmt expr _ => .printStmt (ungrouped expr) none
  | .varDecl name value _ => .varDecl name (ungrouped value) none
  | .block statements _ => .block (allUngrouped statements) none
  | .ifStmt condition thenBranch elseBranch _ =>
    .ifStmt (ungrouped condition) (ungrouped thenBranch) (ungrouped elseBranch) none
  | .whileStmt condition body _ => .whileStmt (ungrouped condition) (ungrouped body) none
  | .forStmt placeholder start stop body _ => .forStmt (ungrouped placeholder) start stop (ungrouped body) none
  | .fnDecl name params body _ => .fnDecl name params (allUngrouped body) none
  | .returnStmt value _ => .returnStmt (ungrouped value) none
  | .binary operator left right _ => .binary operator (ungrouped left) (ungrouped right) none
  | .assign name value _ => .assign name (ungrouped value) none
  | .grouping expr _ => ungrouped expr
  | .intLiteral value _ => .intLiteral value none
  | .realLiteral value _ => .realLiteral value none
  | .strLiteral value _ => .strLiteral value none
  | .identifier name _ => .identifier name none
  | .unary operator right _ => .unary operator (ungrouped right) none
  | .logical operator left right _ => .logical operator (ungrouped left) (ungrouped right) none
  | .call callee args _ => .call (ungrouped callee) (allUngrouped args) none

/-- Trees without locations and parentheses, one after the other. -/
def allUngrouped : List Node → List Node
  | [] => []
  | node :: rest => ungrouped node :: allUngrouped rest

end

end PhyLang.Node
