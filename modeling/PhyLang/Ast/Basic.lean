import PhyLang.Json.Basic
import PhyLang.Source.Position

namespace PhyLang

/-- The location of a node: the first line and column, and the line and column after its end. -/
structure Loc where
  line : Json
  column : Json
  endLine : Json
  endColumn : Json
  deriving Inhabited

namespace Loc

def ofSpan (span : Source.Span) : Loc :=
  ⟨.int span.start.line, .int span.start.column, .int span.stop.line, .int span.stop.column⟩

def shown (loc : Loc) : String := loc.line.shown ++ ":" ++ loc.column.shown

end Loc

/-- A node of a syntax tree, or an empty place. Statements and expressions are of one type, because
a tree that is read from a document may have any node in any place. For the same reason names,
operators, range bounds and locations hold any JSON value; in a tree that comes from source text
they hold texts and integers. -/
inductive Node
  | absent
  | exprStmt (expr : Node) (loc : Option Loc)
  | printStmt (expr : Node) (loc : Option Loc)
  | varDecl (name : Json) (value : Node) (loc : Option Loc)
  | block (statements : List Node) (loc : Option Loc)
  | ifStmt (condition thenBranch elseBranch : Node) (loc : Option Loc)
  | whileStmt (condition body : Node) (loc : Option Loc)
  | forStmt (placeholder : Node) (start stop : Json) (body : Node) (loc : Option Loc)
  | fnDecl (name : Json) (params : List Json) (body : List Node) (loc : Option Loc)
  | returnStmt (value : Node) (loc : Option Loc)
  | binary (operator : Json) (left right : Node) (loc : Option Loc)
  | assign (name : Json) (value : Node) (loc : Option Loc)
  | grouping (expr : Node) (loc : Option Loc)
  | intLiteral (value : Int) (loc : Option Loc)
  | realLiteral (value : Float) (loc : Option Loc)
  | strLiteral (value : Json) (loc : Option Loc)
  | identifier (name : Json) (loc : Option Loc)
  | unary (operator : Json) (right : Node) (loc : Option Loc)
  | logical (operator : Json) (left right : Node) (loc : Option Loc)
  | call (callee : Node) (args : List Node) (loc : Option Loc)
  deriving Inhabited

namespace Node

def loc? : Node → Option Loc
  | .absent => none
  | .exprStmt _ loc | .printStmt _ loc | .varDecl _ _ loc | .block _ loc | .ifStmt _ _ _ loc
  | .whileStmt _ _ loc | .forStmt _ _ _ _ loc | .fnDecl _ _ _ loc | .returnStmt _ loc
  | .binary _ _ _ loc | .assign _ _ loc | .grouping _ loc | .intLiteral _ loc | .realLiteral _ loc
  | .strLiteral _ loc | .identifier _ loc | .unary _ _ loc | .logical _ _ _ loc | .call _ _ loc => loc

def declaredName? : Node → Option Json
  | .varDecl name _ _ | .fnDecl name _ _ _ => some name
  | _ => none

end Node

abbrev Program := List Node

end PhyLang
