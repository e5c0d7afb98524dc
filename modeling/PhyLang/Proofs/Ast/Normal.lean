import PhyLang.Proofs.Ast.RoundTrip

namespace PhyLang

namespace Node

/-- What stands in a field of a node. -/
inductive Content
  | node
  | nodes
  | list
  | pair
  | int
  | real
  | any

/-- The kinds of nodes, and the fields of each between its kind and its location. -/
def forms : List (String × List (String × Content)) :=
  [("ExprStmt", [("expr", .node)]), ("PrintStmt", [("expr", .node)]), ("VarDecl", [("name", .any), ("value", .node)]),
    ("Block", [("statements", .nodes)]),
    ("IfStmt", [("condition", .node), ("then_branch", .node), ("else_branch", .node)]),
    ("WhileStmt", [("condition", .node), ("body", .node)]),
    ("ForStmt", [("placeholder", .node), ("range", .pair), ("body", .node)]),
    ("FnDecl", [("name", .any), ("params", .list), ("body", .nodes)]), ("ReturnStmt", [("value", .node)]),
    ("Binary", [("operator", .any), ("left", .node), ("right", .node)]), ("Assign", [("name", .any), ("value", .node)]),
    ("Grouping", [("expr", .node)]), ("IntLiteral", [("value", .int)]), ("RealLiteral", [("value", .real)]),
    ("StrLiteral", [("value", .any)]), ("Identifier", [("name", .any)]), ("Unary", [("operator", .any), ("right", .node)]),
    ("Logical", [("operator", .any), ("left", .node), ("right", .node)]), ("Call", [("callee", .node), ("args", .nodes)])]

mutual

/-- A document of a node in normal form. -/
inductive IsNormal : Json → Prop
  | absent : IsNormal .null
  | node {kind : String} {form : List (String × Content)} {fields : List (String × Json)} (loc : Option Loc)
      (known : (kind, form) ∈ forms) (filled : AreFilled form fields) :
      IsNormal (.obj (("type", .str kind) :: fields ++ [("loc", Loc.toJson loc)]))

/-- The value of a field in normal form. -/
inductive IsFilled : Content → Json → Prop
  | node {value : Json} (normal : IsNormal value) : IsFilled .node value
  | nodes {values : List Json} (normal : AreNormal values) : IsFilled .nodes (.arr values)
  | list (values : List Json) : IsFilled .list (.arr values)
  | pair (first second : Json) : IsFilled .pair (.arr [first, second])
  | int (value : Int) : IsFilled .int (.int value)
  | real (value : Float) : IsFilled .real (.real value)
  | any (value : Json) : IsFilled .any value

/-- The fields of a node in normal form. -/
inductive AreFilled : List (String × Content) → List (String × Json) → Prop
  | nil : AreFilled [] []
  | cons {name : String} {content : Content} {form : List (String × Content)} {value : Json}
      {fields : List (String × Json)} (first : IsFilled content value) (rest : AreFilled form fields) :
      AreFilled ((name, content) :: form) ((name, value) :: fields)

/-- Documents of nodes in normal form. -/
inductive AreNormal : List Json → Prop
  | nil : AreNormal []
  | cons {value : Json} {values : List Json} (first : IsNormal value) (rest : AreNormal values) :
      AreNormal (value :: values)

end

theorem AreFilled.one {name : String} {content : Content} {value : Json} (filled : IsFilled content value) :
    AreFilled [(name, content)] [(name, value)] :=
  .cons filled .nil

mutual

/-- The document of a node is in normal form. -/
theorem isNormal_toJson : (node : Node) → IsNormal node.toJson
  | .absent => .absent
  | .exprStmt expr loc => .node loc (by simp [forms]) (.one (.node (isNormal_toJson expr)))
  | .printStmt expr loc => .node loc (by simp [forms]) (.one (.node (isNormal_toJson expr)))
  | .varDecl name value loc => .node loc (by simp [forms]) (.cons (.any name) (.one (.node (isNormal_toJson value))))
  | .block statements loc => .node loc (by simp [forms]) (.one (.nodes (areNormal_listToJson statements)))
  | .ifStmt condition thenBranch elseBranch loc =>
    .node loc (by simp [forms]) (.cons (.node (isNormal_toJson condition))
      (.cons (.node (isNormal_toJson thenBranch)) (.one (.node (isNormal_toJson elseBranch)))))
  | .whileStmt condition body loc =>
    .node loc (by simp [forms]) (.cons (.node (isNormal_toJson condition)) (.one (.node (isNormal_toJson body))))
  | .forStmt placeholder start stop body loc =>
    .node loc (by simp [forms]) (.cons (.node (isNormal_toJson placeholder))
      (.cons (.pair start stop) (.one (.node (isNormal_toJson body)))))
  | .fnDecl name params body loc =>
    .node loc (by simp [forms]) (.cons (.any name) (.cons (.list params) (.one (.nodes (areNormal_listToJson body)))))
  | .returnStmt value loc => .node loc (by simp [forms]) (.one (.node (isNormal_toJson value)))
  | .binary operator left right loc =>
    .node loc (by simp [forms]) (.cons (.any operator)
      (.cons (.node (isNormal_toJson left)) (.one (.node (isNormal_toJson right)))))
  | .assign name value loc => .node loc (by simp [forms]) (.cons (.any name) (.one (.node (isNormal_toJson value))))
  | .grouping expr loc => .node loc (by simp [forms]) (.one (.node (isNormal_toJson expr)))
  | .intLiteral value loc => .node loc (by simp [forms]) (.one (.int value))
  | .realLiteral value loc => .node loc (by simp [forms]) (.one (.real value))
  | .strLiteral value loc => .node loc (by simp [forms]) (.one (.any value))
  | .identifier name loc => .node loc (by simp [forms]) (.one (.any name))
  | .unary operator right loc => .node loc (by simp [forms]) (.cons (.any operator) (.one (.node (isNormal_toJson right))))
  | .logical operator left right loc =>
    .node loc (by simp [forms]) (.cons (.any operator)
      (.cons (.node (isNormal_toJson left)) (.one (.node (isNormal_toJson right)))))
  | .call callee args loc =>
    .node loc (by simp [forms]) (.cons (.node (isNormal_toJson callee)) (.one (.nodes (areNormal_listToJson args))))

theorem areNormal_listToJson : (nodes : List Node) → AreNormal (listToJson nodes)
  | [] => .nil
  | node :: rest => .cons (isNormal_toJson node) (areNormal_listToJson rest)

end

/-- What a value stands for that fills a field. -/
def Content.Gives : Content → Json → Prop
  | .node, value => ∃ node : Node, value = node.toJson
  | .nodes, value => ∃ nodes, value = .arr (listToJson nodes)
  | .list, value => ∃ values, value = .arr values
  | .pair, value => ∃ first second, value = .arr [first, second]
  | .int, value => ∃ n, value = .int n
  | .real, value => ∃ x, value = .real x
  | .any, _ => True

/-- Fields that stand for what fills a form. -/
def Gives : List (String × Content) → List (String × Json) → Prop
  | [], fields => fields = []
  | (name, content) :: form, fields => ∃ value rest, fields = (name, value) :: rest ∧ content.Gives value ∧ Gives form rest

/-- What fills the fields of a kind is the document of a node of that kind. -/
theorem Gives.exists_toJson {kind : String} {form : List (String × Content)} {fields : List (String × Json)}
    (given : Gives form fields) (loc : Option Loc) (known : (kind, form) ∈ forms) :
    ∃ node : Node, .obj (("type", .str kind) :: fields ++ [("loc", Loc.toJson loc)]) = node.toJson := by
  simp only [forms, List.mem_cons, List.not_mem_nil, or_false, Prod.mk.injEq] at known
  rcases known with ⟨rfl, rfl⟩ | ⟨rfl, rfl⟩ | ⟨rfl, rfl⟩ | ⟨rfl, rfl⟩ | ⟨rfl, rfl⟩ | ⟨rfl, rfl⟩ | ⟨rfl, rfl⟩ |
      ⟨rfl, rfl⟩ | ⟨rfl, rfl⟩ | ⟨rfl, rfl⟩ | ⟨rfl, rfl⟩ | ⟨rfl, rfl⟩ | ⟨rfl, rfl⟩ | ⟨rfl, rfl⟩ |
      ⟨rfl, rfl⟩ | ⟨rfl, rfl⟩ | ⟨rfl, rfl⟩ | ⟨rfl, rfl⟩ | ⟨rfl, rfl⟩
  · obtain ⟨_, _, rfl, ⟨expr, rfl⟩, rfl⟩ := given
    exact ⟨.exprStmt expr loc, rfl⟩
  · obtain ⟨_, _, rfl, ⟨expr, rfl⟩, rfl⟩ := given
    exact ⟨.printStmt expr loc, rfl⟩
  · obtain ⟨name, _, rfl, -, _, _, rfl, ⟨value, rfl⟩, rfl⟩ := given
    exact ⟨.varDecl name value loc, rfl⟩
  · obtain ⟨_, _, rfl, ⟨statements, rfl⟩, rfl⟩ := given
    exact ⟨.block statements loc, rfl⟩
  · obtain ⟨_, _, rfl, ⟨condition, rfl⟩, _, _, rfl, ⟨thenBranch, rfl⟩, _, _, rfl, ⟨elseBranch, rfl⟩, rfl⟩ := given
    exact ⟨.ifStmt condition thenBranch elseBranch loc, rfl⟩
  · obtain ⟨_, _, rfl, ⟨condition, rfl⟩, _, _, rfl, ⟨body, rfl⟩, rfl⟩ := given
    exact ⟨.whileStmt condition body loc, rfl⟩
  · obtain ⟨_, _, rfl, ⟨placeholder, rfl⟩, _, _, rfl, ⟨start, stop, rfl⟩, _, _, rfl, ⟨body, rfl⟩, rfl⟩ := given
    exact ⟨.forStmt placeholder start stop body loc, rfl⟩
  · obtain ⟨name, _, rfl, -, _, _, rfl, ⟨params, rfl⟩, _, _, rfl, ⟨body, rfl⟩, rfl⟩ := given
    exact ⟨.fnDecl name params body loc, rfl⟩
  · obtain ⟨_, _, rfl, ⟨value, rfl⟩, rfl⟩ := given
    exact ⟨.returnStmt value loc, rfl⟩
  · obtain ⟨operator, _, rfl, -, _, _, rfl, ⟨left, rfl⟩, _, _, rfl, ⟨right, rfl⟩, rfl⟩ := given
    exact ⟨.binary operator left right loc, rfl⟩
  · obtain ⟨name, _, rfl, -, _, _, rfl, ⟨value, rfl⟩, rfl⟩ := given
    exact ⟨.assign name value loc, rfl⟩
  · obtain ⟨_, _, rfl, ⟨expr, rfl⟩, rfl⟩ := given
    exact ⟨.grouping expr loc, rfl⟩
  · obtain ⟨_, _, rfl, ⟨value, rfl⟩, rfl⟩ := given
    exact ⟨.intLiteral value loc, rfl⟩
  · obtain ⟨_, _, rfl, ⟨value, rfl⟩, rfl⟩ := given
    exact ⟨.realLiteral value loc, rfl⟩
  · obtain ⟨value, _, rfl, -, rfl⟩ := given
    exact ⟨.strLiteral value loc, rfl⟩
  · obtain ⟨name, _, rfl, -, rfl⟩ := given
    exact ⟨.identifier name loc, rfl⟩
  · obtain ⟨operator, _, rfl, -, _, _, rfl, ⟨right, rfl⟩, rfl⟩ := given
    exact ⟨.unary operator right loc, rfl⟩
  · obtain ⟨operator, _, rfl, -, _, _, rfl, ⟨left, rfl⟩, _, _, rfl, ⟨right, rfl⟩, rfl⟩ := given
    exact ⟨.logical operator left right loc, rfl⟩
  · obtain ⟨_, _, rfl, ⟨callee, rfl⟩, _, _, rfl, ⟨args, rfl⟩, rfl⟩ := given
    exact ⟨.call callee args loc, rfl⟩

mutual

/-- A document in normal form is the document of a node. -/
theorem IsNormal.exists_toJson {document : Json} : IsNormal document → ∃ node : Node, document = node.toJson
  | .absent => ⟨.absent, rfl⟩
  | .node loc known filled => filled.gives.exists_toJson loc known

theorem IsFilled.gives {content : Content} {value : Json} : IsFilled content value → content.Gives value
  | .node normal => normal.exists_toJson
  | .nodes normal => by
    obtain ⟨nodes, rfl⟩ := normal.exists_listToJson
    exact ⟨nodes, rfl⟩
  | .list values => ⟨values, rfl⟩
  | .pair first second => ⟨first, second, rfl⟩
  | .int value => ⟨value, rfl⟩
  | .real value => ⟨value, rfl⟩
  | .any _ => trivial

theorem AreFilled.gives {form : List (String × Content)} {fields : List (String × Json)} :
    AreFilled form fields → Gives form fields
  | .nil => rfl
  | .cons first rest => ⟨_, _, rfl, first.gives, rest.gives⟩

theorem AreNormal.exists_listToJson {documents : List Json} :
    AreNormal documents → ∃ nodes : List Node, documents = listToJson nodes
  | .nil => ⟨[], rfl⟩
  | .cons first rest => by
    obtain ⟨node, rfl⟩ := first.exists_toJson
    obtain ⟨nodes, rfl⟩ := rest.exists_listToJson
    exact ⟨node :: nodes, rfl⟩

end

theorem isNormal_iff {document : Json} : IsNormal document ↔ ∃ node : Node, document = node.toJson := by
  constructor
  · exact IsNormal.exists_toJson
  · rintro ⟨node, rfl⟩
    exact isNormal_toJson node

end Node

/-- A document of a program in normal form. -/
def Program.IsNormal (document : Json) : Prop :=
  ∃ items, document = .obj [("type", .str "Program"), ("body", .arr items)] ∧ Node.AreNormal items

theorem Program.isNormal_iff {document : Json} :
    IsNormal document ↔ ∃ program : Program, document = program.toJson := by
  constructor
  · rintro ⟨items, rfl, normal⟩
    obtain ⟨program, rfl⟩ := normal.exists_listToJson
    exact ⟨program, rfl⟩
  · rintro ⟨program, rfl⟩
    exact ⟨_, rfl, Node.areNormal_listToJson program⟩

section Recoding

variable {α : Type} {read : Json → Except DocumentFault α} {write : α → Json}

/-- A document that is read and written. -/
def recoded (read : Json → Except DocumentFault α) (write : α → Json) (document : Json) : Except DocumentFault Json :=
  write <$> read document

theorem recoded_eq_ok {document result : Json} :
    recoded read write document = .ok result ↔ ∃ tree, read document = .ok tree ∧ result = write tree := by
  unfold recoded
  cases read document with
  | error fault => simp
  | ok tree => simp [eq_comm]

/-- Documents are settled by reading and writing them once. What is written has a normal form and is read as what
was read before, so that it stays as it is, and no other document does. -/
structure SettlesAtOnce (read : Json → Except DocumentFault α) (write : α → Json) (IsNormal : Json → Prop) : Prop where
  written : ∀ document tree, read document = .ok tree → recoded read write document = .ok (write tree) ∧
    IsNormal (write tree)
  readBack : ∀ document tree, read document = .ok tree → read (write tree) = .ok tree
  stays : ∀ document result, recoded read write document = .ok result → recoded read write result = .ok result
  settled : ∀ document, recoded read write document = .ok document ↔ IsNormal document

/-- A document that stands for something is settled if what is written is read back, and is normal exactly if it
is written for something. -/
theorem SettlesAtOnce.of_readBack {IsNormal : Json → Prop} (readBack : ∀ tree, read (write tree) = .ok tree)
    (normal : ∀ document, IsNormal document ↔ ∃ tree, document = write tree) : SettlesAtOnce read write IsNormal where
  written document tree found := ⟨recoded_eq_ok.mpr ⟨tree, found, rfl⟩, (normal _).mpr ⟨tree, rfl⟩⟩
  readBack _ tree _ := readBack tree
  stays document result done := by
    obtain ⟨tree, -, rfl⟩ := recoded_eq_ok.mp done
    exact recoded_eq_ok.mpr ⟨tree, readBack tree, rfl⟩
  settled document := by
    rw [normal, recoded_eq_ok]
    constructor
    · rintro ⟨tree, -, same⟩
      exact ⟨tree, same⟩
    · rintro ⟨tree, rfl⟩
      exact ⟨tree, readBack tree, rfl⟩

end Recoding

/-- However lenient the reading was, one pass settles the document of a node or of a program. -/
theorem Program.settlesAtOnce :
    SettlesAtOnce Node.ofJson Node.toJson Node.IsNormal ∧ SettlesAtOnce ofJson toJson IsNormal :=
  ⟨.of_readBack Node.ofJson_toJson fun _ => Node.isNormal_iff, .of_readBack ofJson_toJson fun _ => isNormal_iff⟩

/-- A text as parameters, an empty object as body, fields without meaning and a missing location. -/
example : recoded Node.ofJson Node.toJson
    (.obj [("body", .obj []), ("x", .null), ("type", .str "FnDecl"), ("params", .str "ab"), ("name", .bool true)]) =
      .ok (.obj [("type", .str "FnDecl"), ("name", .bool true), ("params", .arr [.str "a", .str "b"]),
        ("body", .arr []), ("loc", .null)]) := by
  rfl

end PhyLang
