import PhyLang.Ast.Basic

namespace PhyLang

/-- What is asked of the parts of a node that are no nodes: of its names, of its integers and of its
location. -/
structure Parts where
  name : String → Prop
  int : Int → Prop
  loc : Option Loc → Prop

namespace Parts

/-- Parts of which nothing is asked. -/
def any : Parts := ⟨fun _ => True, fun _ => True, fun _ => True⟩

/-- A name that is a text of the kind that is asked for. -/
def IsName (parts : Parts) (name : Json) : Prop := ∃ text, name = .str text ∧ parts.name text

/-- A range bound that is an integer of the kind that is asked for. -/
def IsBound (parts : Parts) (bound : Json) : Prop := ∃ n, bound = .int n ∧ parts.int n

end Parts

namespace Node

/-- The operators that are applied to the values of both operands. -/
def binaryOperators : List String := ["==", "!=", "<", "<=", ">", ">=", "+", "-", "*", "/"]

/-- The operators that may leave their right operand unevaluated. -/
def logicalOperators : List String := ["and", "or"]

def unaryOperators : List String := ["!", "-"]

/-- An expression of the language. -/
inductive IsExpression (parts : Parts) : Node → Prop
  | assign {name : Json} {value : Node} {loc : Option Loc} (named : parts.IsName name)
      (inner : IsExpression parts value) (located : parts.loc loc) : IsExpression parts (.assign name value loc)
  | logical {operator : String} {left right : Node} {loc : Option Loc} (known : operator ∈ logicalOperators)
      (first : IsExpression parts left) (second : IsExpression parts right) (located : parts.loc loc) :
      IsExpression parts (.logical (.str operator) left right loc)
  | binary {operator : String} {left right : Node} {loc : Option Loc} (known : operator ∈ binaryOperators)
      (first : IsExpression parts left) (second : IsExpression parts right) (located : parts.loc loc) :
      IsExpression parts (.binary (.str operator) left right loc)
  | unary {operator : String} {right : Node} {loc : Option Loc} (known : operator ∈ unaryOperators)
      (inner : IsExpression parts right) (located : parts.loc loc) :
      IsExpression parts (.unary (.str operator) right loc)
  | call {callee : Node} {args : List Node} {loc : Option Loc} (called : IsExpression parts callee)
      (inner : ∀ arg ∈ args, IsExpression parts arg) (located : parts.loc loc) :
      IsExpression parts (.call callee args loc)
  | grouping {expr : Node} {loc : Option Loc} (inner : IsExpression parts expr) (located : parts.loc loc) :
      IsExpression parts (.grouping expr loc)
  | intLiteral {value : Int} {loc : Option Loc} (allowed : parts.int value) (located : parts.loc loc) :
      IsExpression parts (.intLiteral value loc)
  | realLiteral {value : Float} {loc : Option Loc} (located : parts.loc loc) :
      IsExpression parts (.realLiteral value loc)
  | strLiteral {value : String} {loc : Option Loc} (located : parts.loc loc) :
      IsExpression parts (.strLiteral (.str value) loc)
  | identifier {name : Json} {loc : Option Loc} (named : parts.IsName name) (located : parts.loc loc) :
      IsExpression parts (.identifier name loc)

/-- A node that may stand as an alternative, if it is a statement. -/
inductive IsBranch : Node → Prop
  | block {statements : List Node} {loc : Option Loc} : IsBranch (.block statements loc)
  | ifStmt {condition thenBranch elseBranch : Node} {loc : Option Loc} :
      IsBranch (.ifStmt condition thenBranch elseBranch loc)

/-- A statement of the language. Branches and bodies of loops are blocks, and an alternative is a block or
another condition. -/
inductive IsStatement (parts : Parts) : Node → Prop
  | exprStmt {expr : Node} {loc : Option Loc} (inner : IsExpression parts expr) (located : parts.loc loc) :
      IsStatement parts (.exprStmt expr loc)
  | printStmt {expr : Node} {loc : Option Loc} (inner : IsExpression parts expr) (located : parts.loc loc) :
      IsStatement parts (.printStmt expr loc)
  | varDecl {name : Json} {value : Node} {loc : Option Loc} (named : parts.IsName name)
      (inner : IsExpression parts value) (located : parts.loc loc) : IsStatement parts (.varDecl name value loc)
  | emptyVarDecl {name : Json} {loc : Option Loc} (named : parts.IsName name) (located : parts.loc loc) :
      IsStatement parts (.varDecl name .absent loc)
  | block {statements : List Node} {loc : Option Loc} (inner : ∀ statement ∈ statements, IsStatement parts statement)
      (located : parts.loc loc) : IsStatement parts (.block statements loc)
  | ifStmt {condition : Node} {body : List Node} {bodyLoc loc : Option Loc} (asked : IsExpression parts condition)
      (inner : IsStatement parts (.block body bodyLoc)) (located : parts.loc loc) :
      IsStatement parts (.ifStmt condition (.block body bodyLoc) .absent loc)
  | ifElseStmt {condition other : Node} {body : List Node} {bodyLoc loc : Option Loc}
      (asked : IsExpression parts condition) (inner : IsStatement parts (.block body bodyLoc))
      (branch : other.IsBranch) (alternative : IsStatement parts other) (located : parts.loc loc) :
      IsStatement parts (.ifStmt condition (.block body bodyLoc) other loc)
  | whileStmt {condition : Node} {body : List Node} {bodyLoc loc : Option Loc}
      (asked : IsExpression parts condition) (inner : IsStatement parts (.block body bodyLoc))
      (located : parts.loc loc) : IsStatement parts (.whileStmt condition (.block body bodyLoc) loc)
  | forStmt {name first last : Json} {body : List Node} {nameLoc bodyLoc loc : Option Loc}
      (placeholder : IsStatement parts (.varDecl name .absent nameLoc)) (start : parts.IsBound first)
      (stop : last = .null ∨ parts.IsBound last) (inner : IsStatement parts (.block body bodyLoc))
      (located : parts.loc loc) :
      IsStatement parts (.forStmt (.varDecl name .absent nameLoc) first last (.block body bodyLoc) loc)
  | fnDecl {name : Json} {params : List Json} {body : List Node} {loc : Option Loc} (named : parts.IsName name)
      (namedParams : ∀ param ∈ params, parts.IsName param)
      (inner : ∀ statement ∈ body, IsStatement parts statement) (located : parts.loc loc) :
      IsStatement parts (.fnDecl name params body loc)
  | returnStmt {value : Node} {loc : Option Loc} (inner : IsExpression parts value) (located : parts.loc loc) :
      IsStatement parts (.returnStmt value loc)
  | emptyReturnStmt {loc : Option Loc} (located : parts.loc loc) : IsStatement parts (.returnStmt .absent loc)

/-- The nodes inside of a condition, of which the alternative may be missing. -/
theorem IsStatement.ifNodes {parts : Parts} {condition thenBranch elseBranch : Node} {loc : Option Loc}
    (shape : IsStatement parts (.ifStmt condition thenBranch elseBranch loc)) :
    condition.IsExpression parts ∧ thenBranch.IsStatement parts ∧
      (elseBranch = .absent ∨ elseBranch.IsStatement parts) := by
  cases shape with
  | ifStmt asked inner _ => exact ⟨asked, inner, Or.inl rfl⟩
  | ifElseStmt asked inner _ alternative _ => exact ⟨asked, inner, Or.inr alternative⟩

/-- The value that a declaration gives to its name, which may be missing. -/
theorem IsStatement.declaredValue {parts : Parts} {name : Json} {value : Node} {loc : Option Loc}
    (shape : IsStatement parts (.varDecl name value loc)) :
    parts.IsName name ∧ (value = .absent ∨ value.IsExpression parts) := by
  cases shape with
  | varDecl named inner _ => exact ⟨named, Or.inr inner⟩
  | emptyVarDecl named _ => exact ⟨named, Or.inl rfl⟩

/-- The value that a function returns, which may be missing. -/
theorem IsStatement.returnedValue {parts : Parts} {value : Node} {loc : Option Loc}
    (shape : IsStatement parts (.returnStmt value loc)) : value = .absent ∨ value.IsExpression parts := by
  cases shape with
  | returnStmt inner _ => exact Or.inr inner
  | emptyReturnStmt _ => exact Or.inl rfl

end Node

end PhyLang
