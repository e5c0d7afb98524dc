import PhyLang.Ast.Basic
import PhyLang.Proofs.Token.Lowered

namespace PhyLang

/-- A line number some lines further down. -/
def Json.lowered (lines : Nat) : Json → Json
  | .int line => .int (line + lines)
  | other => other

/-- A location some lines further down. -/
def Loc.lowered (lines : Nat) (loc : Loc) : Loc :=
  { loc with line := loc.line.lowered lines, endLine := loc.endLine.lowered lines }

namespace Node

mutual

/-- A tree some lines further down. -/
def lowered (lines : Nat) : Node → Node
  | .absent => .absent
  | .exprStmt expr loc => .exprStmt (lowered lines expr) (loc.map (·.lowered lines))
  | .printStmt expr loc => .printStmt (lowered lines expr) (loc.map (·.lowered lines))
  | .varDecl name value loc => .varDecl name (lowered lines value) (loc.map (·.lowered lines))
  | .block statements loc => .block (allLowered lines statements) (loc.map (·.lowered lines))
  | .ifStmt condition thenBranch elseBranch loc =>
    .ifStmt (lowered lines condition) (lowered lines thenBranch) (lowered lines elseBranch) (loc.map (·.lowered lines))
  | .whileStmt condition body loc =>
    .whileStmt (lowered lines condition) (lowered lines body) (loc.map (·.lowered lines))
  | .forStmt placeholder start stop body loc =>
    .forStmt (lowered lines placeholder) start stop (lowered lines body) (loc.map (·.lowered lines))
  | .fnDecl name params body loc => .fnDecl name params (allLowered lines body) (loc.map (·.lowered lines))
  | .returnStmt value loc => .returnStmt (lowered lines value) (loc.map (·.lowered lines))
  | .binary operator left right loc =>
    .binary operator (lowered lines left) (lowered lines right) (loc.map (·.lowered lines))
  | .assign name value loc => .assign name (lowered lines value) (loc.map (·.lowered lines))
  | .grouping expr loc => .grouping (lowered lines expr) (loc.map (·.lowered lines))
  | .intLiteral value loc => .intLiteral value (loc.map (·.lowered lines))
  | .realLiteral value loc => .realLiteral value (loc.map (·.lowered lines))
  | .strLiteral value loc => .strLiteral value (loc.map (·.lowered lines))
  | .identifier name loc => .identifier name (loc.map (·.lowered lines))
  | .unary operator right loc => .unary operator (lowered lines right) (loc.map (·.lowered lines))
  | .logical operator left right loc =>
    .logical operator (lowered lines left) (lowered lines right) (loc.map (·.lowered lines))
  | .call callee args loc => .call (lowered lines callee) (allLowered lines args) (loc.map (·.lowered lines))

/-- Trees some lines further down, one after the other. -/
def allLowered (lines : Nat) : List Node → List Node
  | [] => []
  | node :: rest => lowered lines node :: allLowered lines rest

end

theorem allLowered_eq_map (lines : Nat) (nodes : List Node) : allLowered lines nodes = nodes.map (lowered lines) := by
  induction nodes with
  | nil => rfl
  | cons node nodes ih => rw [allLowered, ih, List.map_cons]

end Node

end PhyLang
