import PhyLang.Ast.Basic
import PhyLang.Ast.Fault
import PhyLang.Real.Reading

namespace PhyLang

def Loc.toJson : Option Loc → Json
  | none => .null
  | some loc => .arr [loc.line, loc.column, loc.endLine, loc.endColumn]

def Loc.ofJson : Json → Except DocumentFault (Option Loc)
  | .null => .ok none
  | value =>
    match value.elements? with
    | some [line, column, endLine, endColumn] => .ok (some ⟨line, column, endLine, endColumn⟩)
    | some items => .error (.locSize items.length)
    | none => .error (.locNotIterable value)

/-- The integer nearest to zero among the two next to a real. -/
def truncated (x : Float) : Except DocumentFault Int :=
  match Real.magnitude x with
  | .undefined => .error .undefinedInt
  | .below | .above => .error .infiniteInt
  | .units count => .ok (count.tdiv Real.unitsInOne)

def intOfJson : Json → Except DocumentFault Int
  | .int n => .ok n
  | .bool b => .ok (if b then 1 else 0)
  | .real x => truncated x
  | .str s =>
    match Integer.read s.toList with
    | .ok n => .ok n
    | .error .malformed => .error (.malformedInt s)
    | .error (.tooLong digits) => .error (.longInt digits)
  | value => .error (.notInt value)

/-- The real nearest to an integer, which must not be beyond the largest one. -/
def realOfInt (n : Int) : Except DocumentFault Float :=
  match Real.ofInt? n with
  | some x => .ok x
  | none => .error .largeReal

def realOfJson : Json → Except DocumentFault Float
  | .int n => realOfInt n
  | .bool b => realOfInt (if b then 1 else 0)
  | .real x => .ok x
  | .str s =>
    match Real.read? s.toList with
    | some x => .ok x
    | none => .error (.malformedReal s)
  | value => .error (.notReal value)

namespace Node

def object (kind : String) (parts : List (String × Json)) (loc : Option Loc) : Json :=
  .obj (("type", .str kind) :: parts ++ [("loc", Loc.toJson loc)])

mutual

/-- The document of a node: an object with a field `type`, a field `loc` and a field for each of its
parts. -/
def toJson : Node → Json
  | .absent => .null
  | .exprStmt expr loc => object "ExprStmt" [("expr", toJson expr)] loc
  | .printStmt expr loc => object "PrintStmt" [("expr", toJson expr)] loc
  | .varDecl name value loc => object "VarDecl" [("name", name), ("value", toJson value)] loc
  | .block statements loc => object "Block" [("statements", .arr (listToJson statements))] loc
  | .ifStmt condition thenBranch elseBranch loc =>
    object "IfStmt" [("condition", toJson condition), ("then_branch", toJson thenBranch),
      ("else_branch", toJson elseBranch)] loc
  | .whileStmt condition body loc =>
    object "WhileStmt" [("condition", toJson condition), ("body", toJson body)] loc
  | .forStmt placeholder start stop body loc =>
    object "ForStmt" [("placeholder", toJson placeholder), ("range", .arr [start, stop]),
      ("body", toJson body)] loc
  | .fnDecl name params body loc =>
    object "FnDecl" [("name", name), ("params", .arr params), ("body", .arr (listToJson body))] loc
  | .returnStmt value loc => object "ReturnStmt" [("value", toJson value)] loc
  | .binary operator left right loc =>
    object "Binary" [("operator", operator), ("left", toJson left), ("right", toJson right)] loc
  | .assign name value loc => object "Assign" [("name", name), ("value", toJson value)] loc
  | .grouping expr loc => object "Grouping" [("expr", toJson expr)] loc
  | .intLiteral value loc => object "IntLiteral" [("value", .int value)] loc
  | .realLiteral value loc => object "RealLiteral" [("value", .real value)] loc
  | .strLiteral value loc => object "StrLiteral" [("value", value)] loc
  | .identifier name loc => object "Identifier" [("name", name)] loc
  | .unary operator right loc => object "Unary" [("operator", operator), ("right", toJson right)] loc
  | .logical operator left right loc =>
    object "Logical" [("operator", operator), ("left", toJson left), ("right", toJson right)] loc
  | .call callee args loc =>
    object "Call" [("callee", toJson callee), ("args", .arr (listToJson args))] loc

def listToJson : List Node → List Json
  | [] => []
  | node :: rest => toJson node :: listToJson rest

end

def required (name : String) (fields : List (String × Json)) : Except DocumentFault Json :=
  match Json.field? name fields with
  | some value => .ok value
  | none => .error (.missing name)

/-- The kind of a node, which is null where it is not given. -/
def kindOf (fields : List (String × Json)) : Json := (Json.field? "type" fields).getD .null

def paramsOf (fields : List (String × Json)) : Except DocumentFault (List Json) := do
  let value ← required "params" fields
  match value.elements? with
  | some items => return items
  | none => throw (.notIterable value)

def rangeOf (fields : List (String × Json)) : Except DocumentFault (Json × Json) := do
  let value ← required "range" fields
  match value.elements? with
  | some [start, stop] => return (start, stop)
  | some items => throw (.rangeSize items.length)
  | none => throw (.rangeNotIterable value)

mutual

/-- The node that a document holds. Reading is lenient: fields that are not known are passed over, a
literal is converted to its type, and a text or an object stands for the list of its characters or
names. -/
def ofJson : Json → Except DocumentFault Node
  | .null => .ok .absent
  | .obj fields => do
    let loc ← Loc.ofJson ((Json.field? "loc" fields).getD .null)
    match kindOf fields with
    | .str "ExprStmt" => return .exprStmt (← ofField "expr" fields) loc
    | .str "PrintStmt" => return .printStmt (← ofField "expr" fields) loc
    | .str "VarDecl" => do
      let name ← required "name" fields
      return .varDecl name (← ofOptionalField "value" fields) loc
    | .str "Block" => return .block (← ofListField "statements" fields) loc
    | .str "IfStmt" => do
      let condition ← ofField "condition" fields
      let thenBranch ← ofOptionalField "then_branch" fields
      return .ifStmt condition thenBranch (← ofOptionalField "else_branch" fields) loc
    | .str "WhileStmt" => do
      let condition ← ofField "condition" fields
      return .whileStmt condition (← ofField "body" fields) loc
    | .str "ForStmt" => do
      let (start, stop) ← rangeOf fields
      let placeholder ← ofField "placeholder" fields
      return .forStmt placeholder start stop (← ofField "body" fields) loc
    | .str "FnDecl" => do
      let name ← required "name" fields
      let params ← paramsOf fields
      return .fnDecl name params (← ofListField "body" fields) loc
    | .str "ReturnStmt" => return .returnStmt (← ofOptionalField "value" fields) loc
    | .str "Binary" => do
      let left ← ofField "left" fields
      let operator ← required "operator" fields
      return .binary operator left (← ofField "right" fields) loc
    | .str "Assign" => do
      let name ← required "name" fields
      return .assign name (← ofField "value" fields) loc
    | .str "Grouping" => return .grouping (← ofField "expr" fields) loc
    | .str "IntLiteral" => return .intLiteral (← intOfJson (← required "value" fields)) loc
    | .str "RealLiteral" => return .realLiteral (← realOfJson (← required "value" fields)) loc
    | .str "StrLiteral" => return .strLiteral (← required "value" fields) loc
    | .str "Identifier" => return .identifier (← required "name" fields) loc
    | .str "Unary" => do
      let operator ← required "operator" fields
      return .unary operator (← ofField "right" fields) loc
    | .str "Logical" => do
      let left ← ofField "left" fields
      let operator ← required "operator" fields
      return .logical operator left (← ofField "right" fields) loc
    | .str "Call" => do
      let callee ← ofField "callee" fields
      return .call callee (← ofListField "args" fields) loc
    | kind => throw (.unknownKind kind)
  | _ => .error .notNode

def ofField (name : String) : List (String × Json) → Except DocumentFault Node
  | [] => .error (.missing name)
  | (other, value) :: rest => if other == name then ofJson value else ofField name rest

def ofOptionalField (name : String) : List (String × Json) → Except DocumentFault Node
  | [] => .ok .absent
  | (other, value) :: rest => if other == name then ofJson value else ofOptionalField name rest

def ofListField (name : String) : List (String × Json) → Except DocumentFault (List Node)
  | [] => .error (.missing name)
  | (other, value) :: rest => if other == name then ofElements value else ofListField name rest

/-- The nodes that a value holds. A text or an object with anything in it holds no nodes. -/
def ofElements : Json → Except DocumentFault (List Node)
  | .arr items => ofList items
  | .str s => if s.isEmpty then .ok [] else .error .notNode
  | .obj fields => if fields.isEmpty then .ok [] else .error .notNode
  | value => .error (.notIterable value)

def ofList : List Json → Except DocumentFault (List Node)
  | [] => .ok []
  | item :: rest => do
    let node ← ofJson item
    return node :: (← ofList rest)

end

end Node

namespace Program

def toJson (program : Program) : Json :=
  .obj [("type", .str "Program"), ("body", .arr (Node.listToJson program))]

def ofJson : Json → Except DocumentFault Program
  | .obj fields =>
    match Node.kindOf fields with
    | .str "Program" => Node.ofListField "body" fields
    | _ => .error .notProgram
  | _ => .error .notProgram

end Program

end PhyLang
