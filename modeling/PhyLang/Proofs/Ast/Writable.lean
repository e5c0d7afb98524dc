import PhyLang.Ast.Document
import PhyLang.Proofs.Ast.Shape
import PhyLang.Proofs.Json.RoundTrip

namespace PhyLang

open Json (Writable ItemsWritable FieldsWritable)

/-- Names of any kind, and integers and locations that can be written. -/
def Parts.writable : Parts := ⟨fun _ => True, fun n => Integer.isWritable n, fun loc => Writable (Loc.toJson loc)⟩

theorem Json.itemsWritable {items : List Json} (writable : ∀ item ∈ items, Writable item) : ItemsWritable items := by
  induction items with
  | nil => trivial
  | cons item items ih =>
    exact ⟨writable item (List.mem_cons_self ..), ih fun other member => writable other (List.mem_cons_of_mem _ member)⟩

theorem Parts.IsName.writable {parts : Parts} {name : Json} (named : parts.IsName name) : Writable name := by
  obtain ⟨text, rfl, -⟩ := named
  trivial

theorem Parts.IsBound.writable {bound : Json} (bounded : Parts.writable.IsBound bound) : Writable bound := by
  obtain ⟨n, rfl, fits⟩ := bounded
  exact fits

namespace Node

theorem listToJson_writable {nodes : List Node} (writable : ∀ node ∈ nodes, Writable node.toJson) :
    ItemsWritable (listToJson nodes) := by
  induction nodes with
  | nil => trivial
  | cons node nodes ih =>
    exact ⟨writable node (List.mem_cons_self ..), ih fun other member => writable other (List.mem_cons_of_mem _ member)⟩

theorem fieldsWritable_append {fields later : List (String × Json)} (first : FieldsWritable fields)
    (second : FieldsWritable later) : FieldsWritable (fields ++ later) := by
  induction fields with
  | nil => exact second
  | cons field fields ih => exact ⟨first.1, ih first.2⟩

theorem object_writable {kind : String} {fields : List (String × Json)} {loc : Option Loc}
    (distinct : ("type" :: fields.map (·.1) ++ ["loc"]).Nodup) (writable : FieldsWritable fields)
    (located : Parts.writable.loc loc) : Writable (object kind fields loc) := by
  refine ⟨by simpa using distinct, trivial, ?_⟩
  exact fieldsWritable_append writable ⟨located, trivial⟩

/-- The document of an expression can be written. -/
theorem IsExpression.writable {node : Node} (shape : node.IsExpression Parts.writable) : Writable node.toJson := by
  induction shape with
  | assign named _ located inner => exact object_writable (by simp) ⟨named.writable, inner, trivial⟩ located
  | logical _ _ _ located left right => exact object_writable (by simp) ⟨trivial, left, right, trivial⟩ located
  | binary _ _ _ located left right => exact object_writable (by simp) ⟨trivial, left, right, trivial⟩ located
  | unary _ _ located inner => exact object_writable (by simp) ⟨trivial, inner, trivial⟩ located
  | call _ _ located callee args =>
    exact object_writable (by simp) ⟨callee, listToJson_writable args, trivial⟩ located
  | grouping _ located inner => exact object_writable (by simp) ⟨inner, trivial⟩ located
  | intLiteral fits located => exact object_writable (by simp) ⟨fits, trivial⟩ located
  | realLiteral located => exact object_writable (by simp) ⟨trivial, trivial⟩ located
  | strLiteral located => exact object_writable (by simp) ⟨trivial, trivial⟩ located
  | identifier named located => exact object_writable (by simp) ⟨named.writable, trivial⟩ located

/-- The document of a statement can be written. -/
theorem IsStatement.writable {node : Node} (shape : node.IsStatement Parts.writable) : Writable node.toJson := by
  induction shape with
  | exprStmt inner located => exact object_writable (by simp) ⟨inner.writable, trivial⟩ located
  | printStmt inner located => exact object_writable (by simp) ⟨inner.writable, trivial⟩ located
  | varDecl named inner located =>
    exact object_writable (by simp) ⟨named.writable, inner.writable, trivial⟩ located
  | emptyVarDecl named located => exact object_writable (by simp) ⟨named.writable, trivial, trivial⟩ located
  | block _ located inner => exact object_writable (by simp) ⟨listToJson_writable inner, trivial⟩ located
  | ifStmt asked _ located inner =>
    exact object_writable (by simp) ⟨asked.writable, inner, trivial, trivial⟩ located
  | ifElseStmt asked _ _ _ located inner alternative =>
    exact object_writable (by simp) ⟨asked.writable, inner, alternative, trivial⟩ located
  | whileStmt asked _ located inner => exact object_writable (by simp) ⟨asked.writable, inner, trivial⟩ located
  | forStmt _ start stop _ located placeholder inner =>
    have last := stop.elim (fun none => by rw [none]; trivial) Parts.IsBound.writable
    exact object_writable (by simp) ⟨placeholder, ⟨start.writable, last, trivial⟩, inner, trivial⟩ located
  | fnDecl named params _ located inner =>
    have writableParams := Json.itemsWritable fun param member => (params param member).writable
    exact object_writable (by simp) ⟨named.writable, writableParams, listToJson_writable inner, trivial⟩ located
  | returnStmt inner located => exact object_writable (by simp) ⟨inner.writable, trivial⟩ located
  | emptyReturnStmt located => exact object_writable (by simp) ⟨trivial, trivial⟩ located

end Node

/-- The document of a program can be written. -/
theorem Program.toJson_writable {program : Program}
    (shape : ∀ statement ∈ program, statement.IsStatement Parts.writable) : Writable program.toJson :=
  ⟨by simp, trivial, Node.listToJson_writable fun statement member => (shape statement member).writable, trivial⟩

end PhyLang
