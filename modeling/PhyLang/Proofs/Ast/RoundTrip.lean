import Mathlib.Tactic
import PhyLang.Ast.Document

namespace PhyLang

@[simp] theorem Loc.ofJson_toJson (loc : Option Loc) : Loc.ofJson (Loc.toJson loc) = .ok loc := by
  cases loc <;> rfl

namespace Node

mutual

/-- The document of a node is read as that node. -/
theorem ofJson_toJson : (node : Node) → ofJson node.toJson = .ok node
  | .absent => rfl
  | .exprStmt expr loc => by
    have exprRead := ofJson_toJson expr
    simp [toJson, object, ofJson, ofField, kindOf, Json.field?, exprRead]
    rfl
  | .printStmt expr loc => by
    have exprRead := ofJson_toJson expr
    simp [toJson, object, ofJson, ofField, kindOf, Json.field?, exprRead]
    rfl
  | .varDecl _ value loc => by
    have valueRead := ofJson_toJson value
    simp [toJson, object, ofJson, ofOptionalField, kindOf, required, Json.field?, valueRead]
    rfl
  | .block statements loc => by
    have statementsRead := ofList_listToJson statements
    simp [toJson, object, ofJson, ofListField, ofElements, kindOf, Json.field?, statementsRead]
    rfl
  | .ifStmt condition thenBranch elseBranch loc => by
    have conditionRead := ofJson_toJson condition
    have thenBranchRead := ofJson_toJson thenBranch
    have elseBranchRead := ofJson_toJson elseBranch
    simp [toJson, object, ofJson, ofField, ofOptionalField, kindOf, Json.field?, conditionRead,
      thenBranchRead, elseBranchRead]
    rfl
  | .whileStmt condition body loc => by
    have conditionRead := ofJson_toJson condition
    have bodyRead := ofJson_toJson body
    simp [toJson, object, ofJson, ofField, kindOf, Json.field?, conditionRead, bodyRead]
    rfl
  | .forStmt placeholder _ _ body loc => by
    have placeholderRead := ofJson_toJson placeholder
    have bodyRead := ofJson_toJson body
    simp [toJson, object, ofJson, ofField, kindOf, required, rangeOf, Json.field?, Json.elements?,
      placeholderRead, bodyRead]
    rfl
  | .fnDecl _ _ body loc => by
    have bodyRead := ofList_listToJson body
    simp [toJson, object, ofJson, ofListField, ofElements, kindOf, required, paramsOf, Json.field?,
      Json.elements?, bodyRead]
    rfl
  | .returnStmt value loc => by
    have valueRead := ofJson_toJson value
    simp [toJson, object, ofJson, ofOptionalField, kindOf, Json.field?, valueRead]
    rfl
  | .binary _ left right loc => by
    have leftRead := ofJson_toJson left
    have rightRead := ofJson_toJson right
    simp [toJson, object, ofJson, ofField, kindOf, required, Json.field?, leftRead, rightRead]
    rfl
  | .assign _ value loc => by
    have valueRead := ofJson_toJson value
    simp [toJson, object, ofJson, ofField, kindOf, required, Json.field?, valueRead]
    rfl
  | .grouping expr loc => by
    have exprRead := ofJson_toJson expr
    simp [toJson, object, ofJson, ofField, kindOf, Json.field?, exprRead]
    rfl
  | .intLiteral _ loc => by
    simp [toJson, object, ofJson, kindOf, required, Json.field?, intOfJson]
    rfl
  | .realLiteral _ loc => by
    simp [toJson, object, ofJson, kindOf, required, Json.field?, realOfJson]
    rfl
  | .strLiteral _ loc => by
    simp [toJson, object, ofJson, kindOf, required, Json.field?]
    rfl
  | .identifier _ loc => by
    simp [toJson, object, ofJson, kindOf, required, Json.field?]
    rfl
  | .unary _ right loc => by
    have rightRead := ofJson_toJson right
    simp [toJson, object, ofJson, ofField, kindOf, required, Json.field?, rightRead]
    rfl
  | .logical _ left right loc => by
    have leftRead := ofJson_toJson left
    have rightRead := ofJson_toJson right
    simp [toJson, object, ofJson, ofField, kindOf, required, Json.field?, leftRead, rightRead]
    rfl
  | .call callee args loc => by
    have calleeRead := ofJson_toJson callee
    have argsRead := ofList_listToJson args
    simp [toJson, object, ofJson, ofField, ofListField, ofElements, kindOf, Json.field?, calleeRead,
      argsRead]
    rfl

/-- The documents of nodes are read as those nodes. -/
theorem ofList_listToJson : (nodes : List Node) → ofList (listToJson nodes) = .ok nodes
  | [] => rfl
  | node :: rest => by
    have nodeRead := ofJson_toJson node
    have restRead := ofList_listToJson rest
    simp [listToJson, ofList, nodeRead, restRead]
    rfl

end

end Node

/-- The document of a program is read as that program. -/
theorem Program.ofJson_toJson (program : Program) : Program.ofJson program.toJson = .ok program := by
  have bodyRead := Node.ofList_listToJson program
  simp [toJson, ofJson, Node.kindOf, Json.field?, Node.ofListField, Node.ofElements, bodyRead]

/-- The document of a program is read as that program and as no other, and so is the document of every node:
with all its fields, its empty places, its literals of any size and the locations of all its parts. -/
theorem Program.ofJson_toJson_iff :
    (∀ program read : Program, ofJson program.toJson = .ok read ↔ read = program) ∧
      ∀ node read : Node, Node.ofJson node.toJson = .ok read ↔ read = node := by
  constructor
  · intro program read
    rw [ofJson_toJson, Except.ok.injEq, eq_comm]
  · intro node read
    rw [Node.ofJson_toJson, Except.ok.injEq, eq_comm]

end PhyLang
