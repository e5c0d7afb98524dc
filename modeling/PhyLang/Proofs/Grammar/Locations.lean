import PhyLang.Proofs.Grammar.Children
import PhyLang.Proofs.Grammar.Parse
import PhyLang.Proofs.Source.Unmoved
import PhyLang.Proofs.Token.Place

namespace PhyLang

open Source (Position Span StandsAt charAt? terminate)

theorem Loc.ofSpan_injective : Function.Injective ofSpan := by
  rintro ⟨⟨line, column⟩, ⟨endLine, endColumn⟩⟩ ⟨⟨line', column'⟩, ⟨endLine', endColumn'⟩⟩ same
  simpa [ofSpan, and_assoc] using same

/-- Nodes stand one behind the other, as far as they stand somewhere. -/
def Node.InOrder (nodes : List Node) : Prop :=
  nodes.Pairwise fun a b => ∀ p q, a.loc? = some (.ofSpan p) → b.loc? = some (.ofSpan q) → p.stop ≤ q.start

namespace Grammar

/-- Tokens that stand one behind the other. -/
structure Arranged (tokens : List Token) : Prop where
  proper : ∀ token ∈ tokens, token.span.start < token.span.stop
  ordered : tokens.Pairwise fun a b => a.span.stop ≤ b.span.start

namespace Arranged

variable {tokens used : List Token}

theorem sub (arranged : Arranged tokens) (among : used <:+: tokens) : Arranged used where
  proper token member := arranged.proper token (among.subset member)
  ordered := arranged.ordered.sublist among.sublist

/-- The span of some tokens reaches around each of them. -/
theorem around (arranged : Arranged tokens) {span : Span} (spans : Spans tokens span) {token : Token}
    (member : token ∈ tokens) : span.start ≤ token.span.start ∧ token.span.stop ≤ span.stop := by
  obtain ⟨first, last, head, final, rfl⟩ := spans
  have proper := arranged.proper
  have ordered := arranged.ordered
  constructor
  · obtain ⟨later, rfl⟩ := List.head?_eq_some_iff.mp head
    rcases List.mem_cons.mp member with rfl | behind
    · exact le_rfl
    · calc first.span.start
        _ ≤ first.span.stop := (proper first (List.mem_cons_self ..)).le
        _ ≤ token.span.start := List.rel_of_pairwise_cons ordered behind
  · obtain ⟨earlier, rfl⟩ := List.getLast?_eq_some_iff.mp final
    rcases List.mem_append.mp member with before | alone
    · calc token.span.stop
        _ ≤ last.span.start := (List.pairwise_append.mp ordered).2.2 token before last (List.mem_singleton_self _)
        _ ≤ last.span.stop := (proper last (List.mem_append_right _ (List.mem_singleton_self _))).le
    · rw [List.mem_singleton.mp alone]
      exact le_rfl

end Arranged

theorem Spans.first_mem {tokens : List Token} {span : Span} (spans : Spans tokens span) :
    ∃ first ∈ tokens, first.span.start = span.start := by
  obtain ⟨first, last, head, -, rfl⟩ := spans
  exact ⟨first, List.mem_of_mem_head? head, rfl⟩

theorem Spans.last_mem {tokens : List Token} {span : Span} (spans : Spans tokens span) :
    ∃ last ∈ tokens, last.span.stop = span.stop := by
  obtain ⟨first, last, -, final, rfl⟩ := spans
  exact ⟨last, List.mem_of_getLast? final, rfl⟩

/-- The location of a derived node is the span of its tokens. -/
theorem Derives.spans {tokens : List Token} {node : Node} {span : Span} (derives : Derives tokens node)
    (loc : node.loc? = some (.ofSpan span)) : Spans tokens span := by
  obtain ⟨own, located, spans⟩ := derives.located
  have same : own = span := Loc.ofSpan_injective (Option.some.inj (located.symm.trans loc))
  rwa [same] at spans

/-- Nodes that are derived one after the other stand one behind the other. -/
theorem Covers.inOrder {tokens : List Token} {nodes : List Node} (covers : Covers tokens nodes)
    (arranged : Arranged tokens) : Node.InOrder nodes := by
  induction covers with
  | none => exact .nil
  | skip token _ ih => exact ih (arranged.sub (List.suffix_cons ..).isInfix)
  | absent _ ih => exact .cons (fun _ _ p q loc => by cases loc) (ih arranged)
  | @node used tokens node nodes derived later ih =>
    refine .cons (fun other member p q loc otherLoc => ?_) (ih (arranged.sub (List.suffix_append ..).isInfix))
    have present : other ≠ .absent := by
      rintro rfl
      cases otherLoc
    obtain ⟨others, among, otherDerived⟩ := later.derives other member present
    obtain ⟨last, lastMember, stop⟩ := (derived.spans loc).last_mem
    obtain ⟨first, firstMember, start⟩ := (otherDerived.spans otherLoc).first_mem
    rw [← stop, ← start]
    exact (List.pairwise_append.mp arranged.ordered).2.2 last lastMember first (among.subset firstMember)

/-- A child stands inside of the node it stands in. -/
theorem Derives.child_inside {tokens : List Token} {node child : Node} {span : Span} (derives : Derives tokens node)
    (arranged : Arranged tokens) (loc : node.loc? = some (.ofSpan span)) (member : child ∈ node.children)
    (present : child ≠ .absent) :
    ∃ inner, child.loc? = some (.ofSpan inner) ∧ span.start ≤ inner.start ∧ inner.stop ≤ span.stop := by
  obtain ⟨used, among, derived⟩ := derives.covers.derives child member present
  obtain ⟨inner, located, spans⟩ := derived.located
  obtain ⟨first, firstMember, start⟩ := spans.first_mem
  obtain ⟨last, lastMember, stop⟩ := spans.last_mem
  refine ⟨inner, located, ?_, ?_⟩
  · rw [← start]
    exact (arranged.around (derives.spans loc) (among.subset firstMember)).1
  · rw [← stop]
    exact (arranged.around (derives.spans loc) (among.subset lastMember)).2

end Grammar

theorem Token.scan_arranged (input : List Char) : Grammar.Arranged (scan input).tokens where
  proper token member := (scan_stand.1 token member).proper
  ordered := scan_stand.2

/-- A node stands in a stretch of a source text. Its children stand inside of the stretch, one behind the
other, and the character at its start, in the source and when the source is terminated, is the first one of
the first token from which the node is derived. -/
structure Node.StandsIn (source : List Char) (node : Node) (span : Span) : Prop where
  loc : node.loc? = some (.ofSpan span)
  proper : span.start < span.stop
  inside : ∀ child ∈ node.children, child ≠ .absent →
    ∃ inner, child.loc? = some (.ofSpan inner) ∧ span.start ≤ inner.start ∧ inner.stop ≤ span.stop
  order : InOrder node.children
  first : ∃ first later c, first :: later <:+: (Token.scan (terminate source)).tokens ∧
    Grammar.Derives (first :: later) node ∧ first.span.start = span.start ∧ first.text.head? = some c ∧
    charAt? (terminate source) span.start = some c ∧ charAt? source span.start = some c

/-- A node stands in the source from whose tokens it is derived. -/
theorem Grammar.Derives.standsIn {source : List Char} {tokens : List Token} {node : Node}
    (derives : Derives tokens node) (among : tokens <:+: (Token.scan (terminate source)).tokens) :
    ∃ span, node.StandsIn source span := by
  have arranged : Arranged tokens := (Token.scan_arranged _).sub among
  obtain ⟨span, loc, spans⟩ := derives.located
  obtain ⟨first, head, noSemicolon⟩ := derives.first
  obtain ⟨later, rfl⟩ := List.head?_eq_some_iff.mp head
  have start : first.span.start = span.start := by
    obtain ⟨other, last, same, -, rfl⟩ := spans
    rw [Option.some.inj (head.symm.trans same)]
    rfl
  have firstMember : first ∈ first :: later := List.mem_cons_self ..
  have proper : span.start < span.stop := by
    rw [← start]
    exact (arranged.proper first firstMember).trans_le (arranged.around spans firstMember).2
  obtain ⟨c, text, visible, semicolon, here⟩ := (Token.scan_stand.1 first (among.subset firstMember)).first
  rw [start] at here
  have found : charAt? (terminate source) span.start = some c := Source.charAt?_eq_some_iff.mpr ⟨visible, here⟩
  have unmoved : charAt? source span.start = some c := by
    refine (Source.charAt?_of_terminate found).resolve_right ?_
    rintro ⟨rfl, -⟩
    exact noSemicolon (semicolon rfl)
  exact ⟨span, loc, proper, fun child member present => derives.child_inside arranged loc member present,
    derives.covers.inOrder arranged, first, later, c, among, derives, start, text, found, unmoved⟩

/-- A program stands in a source text. -/
structure Program.StandsIn (source : List Char) (program : Program) : Prop where
  /-- Every node within the program stands in the source. -/
  nodes : ∀ root ∈ program, ∀ node : Node, node.Within root → node ≠ .absent → ∃ span, node.StandsIn source span
  /-- The statements stand one behind the other. -/
  order : Node.InOrder program
  /-- A visible character of the terminated source has the place that it has in the source, unless it is a
  semicolon behind which nothing stands in its line. -/
  unmoved : ∀ place c, charAt? (terminate source) place = some c → charAt? source place = some c ∨
    c = ';' ∧ charAt? (terminate source) (place.next ';') = none

/-- Every program that parsing gives stands in the source. -/
theorem Program.parse_standsIn {source : String} {program : Program} (parsed : Program.parse source = .ok program) :
    program.StandsIn source.toList := by
  obtain ⟨-, -, derived⟩ := parse_ok parsed
  have covers := derived.covers
  refine ⟨fun root member node inside present => ?_, covers.inOrder (Token.scan_arranged _),
    fun place c found => Source.charAt?_of_terminate found⟩
  obtain ⟨tokens, among, derives⟩ := covers.derives root member (inside.root_present present)
  obtain ⟨used, within, nodeDerives⟩ := derives.within inside present
  exact nodeDerives.standsIn (within.trans among)

/-- A program with comments, lines without semicolons, and nested statements and calls. -/
theorem Program.parse_standsIn_commented :
    ∃ program, Program.parse "// a; b\nvar s = \"//\" // text\nprint f(1, (2\n + s)) * 4 // call\nif s {print s} else {}\n" =
      .ok program ∧
      program.StandsIn "// a; b\nvar s = \"//\" // text\nprint f(1, (2\n + s)) * 4 // call\nif s {print s} else {}\n".toList := by
  have accepted : (Program.parse
      "// a; b\nvar s = \"//\" // text\nprint f(1, (2\n + s)) * 4 // call\nif s {print s} else {}\n").isOk = true := by
    decide +kernel
  obtain ⟨program, parsed⟩ := exists_of_isOk accepted
  exact ⟨program, parsed, parse_standsIn parsed⟩

end PhyLang
