import PhyLang.Proofs.Ast.Within
import PhyLang.Proofs.Grammar.First
import PhyLang.Proofs.Grammar.Shape

namespace PhyLang

/-- Nothing stands in an empty place. -/
theorem Node.Within.root_present {node root : Node} (inside : node.Within root) (present : node ≠ .absent) :
    root ≠ .absent := by
  induction inside with
  | same => exact present
  | @child _ parent _ member _ ih =>
    refine ih ?_
    rintro rfl
    cases member

namespace Grammar

open Source (Span)

/-- The tokens of a node: those of an expression or a statement, or the name of a loop's placeholder. -/
inductive Derives : List Token → Node → Prop
  | expr {rank : Nat} {tokens : List Token} {expr : Node × Span} (derived : Expr rank tokens expr) :
      Derives tokens expr.1
  | simple {tokens : List Token} {node : Node} (derived : Simple tokens node) : Derives tokens node
  | compound {tokens : List Token} {node : Node × Span} (derived : Compound tokens node) : Derives tokens node.1
  | placeholder {target : Token} (name : target.kind = .name) :
      Derives [target] (.varDecl (textOf target) .absent (some (.ofSpan target.span)))

/-- Nodes that are derived one after the other from parts of some tokens. -/
inductive Covers : List Token → List Node → Prop
  | none (tokens : List Token) : Covers tokens []
  | skip (token : Token) {tokens : List Token} {nodes : List Node} (later : Covers tokens nodes) :
      Covers (token :: tokens) nodes
  | absent {tokens : List Token} {nodes : List Node} (later : Covers tokens nodes) : Covers tokens (.absent :: nodes)
  | node {used tokens : List Token} {node : Node} {nodes : List Node} (derived : Derives used node)
      (later : Covers tokens nodes) : Covers (used ++ tokens) (node :: nodes)

namespace Covers

variable {tokens later : List Token} {nodes others : List Node}

theorem skipAll (skipped : List Token) (covers : Covers tokens nodes) : Covers (skipped ++ tokens) nodes := by
  induction skipped with
  | nil => exact covers
  | cons token _ ih => exact .skip token ih

theorem append (covers : Covers tokens nodes) (more : Covers later others) : Covers (tokens ++ later) (nodes ++ others) := by
  induction covers with
  | none tokens => exact more.skipAll tokens
  | skip token _ ih => exact .skip token ih
  | absent _ ih => exact .absent ih
  | node derived _ ih =>
    rw [List.append_assoc]
    exact .node derived ih

/-- What follows the last of the nodes does not matter. -/
theorem behind (covers : Covers tokens nodes) (more : List Token) : Covers (tokens ++ more) nodes := by
  have both := covers.append (.none more)
  rwa [List.append_nil] at both

theorem single {node : Node} (derived : Derives tokens node) : Covers tokens [node] := by
  have alone := Covers.node derived (.none [])
  rwa [List.append_nil] at alone

end Covers

mutual

/-- The arguments of a call are derived one after the other. -/
theorem Args.covers {tokens : List Token} {args : List Node} : Args tokens args → Covers tokens args
  | .none => .none []
  | .some first later => .node (.expr first) later.covers

theorem MoreArgs.covers {tokens : List Token} {args : List Node} : MoreArgs tokens args → Covers tokens args
  | .none => .none []
  | .next _ first later => .skip _ (.node (.expr first) later.covers)

end

/-- The children of an expression are derived one after the other. -/
theorem Expr.covers {rank : Nat} {tokens : List Token} {expr : Node × Span} :
    Expr rank tokens expr → Covers tokens expr.1.children
  | .assign _ _ inner => .skip _ (.skip _ (.single (.expr inner)))
  | .looser inner => inner.covers
  | .join _ left right => by
    unfold joined
    simp only
    split <;> exact .node (.expr left) (.skip _ (.single (.expr right)))
  | .sign _ inner => .skip _ (.single (.expr inner))
  | .grouping _ _ inner => .skip _ (.node (.expr inner) (.none _))
  | .call _ _ callee args => by
    rw [List.append_assoc]
    exact .node (.expr callee) (.skip _ (args.covers.behind _))
  | .leaf alone => by
    unfold leaf? at alone
    split at alone <;> cases alone <;> exact .none _

/-- Statements one after the other are derived one after the other. -/
theorem Statements.covers {tokens : List Token} {nodes : List Node} : Statements tokens nodes → Covers tokens nodes
  | .none => .none []
  | .last only => .single (.simple only)
  | .simple first _ later => .node (.simple first) (.skip _ later.covers)
  | .semicolon _ later => .skip _ later.covers
  | .compound first later => .node (.compound first) later.covers

theorem Block.covers {tokens : List Token} {body : List Node × Span} (derived : Block tokens body) :
    Covers tokens body.1 := by
  cases derived with
  | curly _ _ inner => exact .skip _ (inner.covers.behind _)

theorem Block.single {tokens : List Token} {body : List Node × Span} (derived : Block tokens body) :
    Covers tokens [.block body.1 (some (.ofSpan body.2))] := .single (.compound (.block derived))

theorem Simple.covers {tokens : List Token} {node : Node} (derived : Simple tokens node) :
    Covers tokens node.children := by
  cases derived with
  | print _ inner | «return» _ inner => exact .skip _ (.single (.expr inner))
  | declare _ _ _ inner => exact .skip _ (.skip _ (.skip _ (.single (.expr inner))))
  | declareEmpty | returnEmpty => exact .absent (.none _)
  | expr inner => exact .single (.expr inner)

theorem Compound.covers {tokens : List Token} {node : Node × Span} (derived : Compound tokens node) :
    Covers tokens node.1.children := by
  cases derived with
  | «if» _ condition body =>
    have branches := body.single.append (.absent (.none []))
    rw [List.append_nil] at branches
    exact .skip _ (.node (.expr condition) branches)
  | ifElse _ condition body alternative =>
    obtain ⟨_, _, other⟩ := alternative
    rw [List.append_assoc]
    exact .skip _ (.node (.expr condition) (body.single.append (.skip _ (.single (.compound other)))))
  | «while» _ condition body => exact .skip _ (.node (.expr condition) body.single)
  | @«for» word target _ tokens _ _ _ _ name _ _ body =>
    exact .skip word (@Covers.node [target] _ _ _ (.placeholder name) (.skip _ (body.single.skipAll tokens)))
  | @function _ _ _ _ tokens _ _ _ _ _ _ _ _ body =>
    exact .skip _ (.skip _ (.skip _ ((Covers.skip _ body.covers).skipAll tokens)))
  | block body => exact body.covers

/-- The children of a node are derived one after the other. -/
theorem Derives.covers {tokens : List Token} {node : Node} (derives : Derives tokens node) :
    Covers tokens node.children := by
  cases derives with
  | expr derived => exact derived.covers
  | simple derived => exact derived.covers
  | compound derived => exact derived.covers
  | placeholder => exact .absent (.none _)

/-- The location of an expression is its span. -/
theorem Expr.located {rank : Nat} {tokens : List Token} {expr : Node × Span} :
    Expr rank tokens expr → expr.1.loc? = some (.ofSpan expr.2)
  | .assign _ _ _ | .sign _ _ | .call _ _ _ _ | .grouping _ _ _ => rfl
  | .looser inner => inner.located
  | .join _ _ _ => by
    unfold joined
    simp only
    split <;> rfl
  | .leaf alone => by
    unfold leaf? at alone
    split at alone <;> cases alone <;> rfl

/-- A node is located where its tokens stand. -/
theorem Derives.located {tokens : List Token} {node : Node} (derives : Derives tokens node) :
    ∃ span, node.loc? = some (.ofSpan span) ∧ Spans tokens span := by
  cases derives with
  | expr derived => exact ⟨_, derived.located, derived.spans⟩
  | simple derived =>
    cases derived with
    | print _ inner | «return» _ inner => exact ⟨_, rfl, @Spans.cons _ [] _ _ inner.spans⟩
    | @declare _ target equals _ _ _ _ _ inner => exact ⟨_, rfl, @Spans.cons _ [target, equals] _ _ inner.spans⟩
    | @declareEmpty _ target => exact ⟨_, rfl, @Spans.cons _ [] _ _ (.single target)⟩
    | returnEmpty => exact ⟨_, rfl, .single _⟩
    | expr inner => exact ⟨_, rfl, inner.spans⟩
  | compound derived =>
    refine ⟨_, ?_, derived.spans⟩
    cases derived <;> rfl
  | placeholder => exact ⟨_, rfl, .single _⟩

/-- What begins with a token of some sort begins with no semicolon, if no semicolon is of that sort. -/
theorem head_of_begins {tokens : List Token} {begins : Token → Bool}
    (found : ∃ first later, tokens = first :: later ∧ begins first)
    (never : ∀ token : Token, token.kind = .mark .semicolon → begins token = false) :
    ∃ first, tokens.head? = some first ∧ first.kind ≠ .mark .semicolon := by
  obtain ⟨first, later, rfl, fits⟩ := found
  refine ⟨first, rfl, fun kind => ?_⟩
  rw [never first kind] at fits
  cases fits

/-- No node begins with a semicolon. -/
theorem Derives.first {tokens : List Token} {node : Node} (derives : Derives tokens node) :
    ∃ first, tokens.head? = some first ∧ first.kind ≠ .mark .semicolon := by
  cases derives with
  | expr derived => exact head_of_begins derived.first fun token kind => by rw [kind]; rfl
  | simple derived => exact head_of_begins derived.first fun token kind => by rw [kind]; rfl
  | compound derived => exact head_of_begins derived.first fun token kind => by rw [beginsCompound, kind]
  | placeholder name => exact ⟨_, rfl, by simp [name]⟩

/-- Nodes that are derived one after the other are derived from stretches of the tokens. -/
theorem Covers.derives {tokens : List Token} {nodes : List Node} (covers : Covers tokens nodes) :
    ∀ node ∈ nodes, node ≠ .absent → ∃ used, used <:+: tokens ∧ Derives used node := by
  induction covers with
  | none => simp
  | skip token _ ih =>
    intro node member present
    obtain ⟨used, among, derived⟩ := ih node member present
    exact ⟨used, among.trans (List.suffix_cons ..).isInfix, derived⟩
  | absent _ ih =>
    intro node member present
    rcases List.mem_cons.mp member with same | later
    · exact absurd same present
    · exact ih node later present
  | @node first _ _ _ derived _ ih =>
    intro node member present
    rcases List.mem_cons.mp member with rfl | later
    · exact ⟨first, (List.prefix_append ..).isInfix, derived⟩
    · obtain ⟨used, among, derived⟩ := ih node later present
      exact ⟨used, among.trans (List.suffix_append ..).isInfix, derived⟩

/-- Every node within a derived node is derived from a stretch of its tokens. -/
theorem Derives.within {tokens : List Token} {node root : Node} (derives : Derives tokens root)
    (inside : node.Within root) (present : node ≠ .absent) : ∃ used, used <:+: tokens ∧ Derives used node := by
  induction inside with
  | same => exact ⟨tokens, List.infix_rfl, derives⟩
  | @child node parent root member _ ih =>
    have parentPresent : parent ≠ .absent := (Node.Within.of_child member).root_present present
    obtain ⟨some, among, parentDerives⟩ := ih derives parentPresent
    obtain ⟨used, within, derived⟩ := parentDerives.covers.derives node member present
    exact ⟨used, within.trans among, derived⟩

end Grammar

end PhyLang
