import PhyLang.Proofs.Grammar.Locations
import PhyLang.Proofs.Token.Words

namespace PhyLang

open Source (Position Region Span)

namespace Source

/-- Whether two stretches share a place. -/
def Span.Meets (a b : Span) : Prop := a.start < b.stop ∧ b.start < a.stop

instance (p q : Position) : Decidable (p < q) := decidable_of_iff _ Position.lt_iff.symm

instance (a b : Span) : Decidable (a.Meets b) := inferInstanceAs (Decidable (_ ∧ _))

/-- A word of a source text: letters, digits and underscores in code that stand together, of which the first is
no digit. -/
structure HasWord (source before word after : List Char) : Prop where
  split : source = before ++ word ++ after
  code : Region.behind .code before (word ++ after) = .code
  identifier : Token.IsIdentifier (String.ofList word)
  left : ∀ c, before.getLast? = some c → Token.isNamePart c = false
  right : Text.Stops Token.isNamePart after

end Source

open Source (HasWord)

/-- Whether a token is cut off the front of a word of a source text. -/
def Token.IsCutOff (token : Token) (source : List Char) : Prop :=
  ∃ before c more after, HasWord source before (token.text ++ c :: more) after ∧
    token.span.start = Position.first.advance before

namespace Grammar.Arranged

variable {tokens : List Token} {token : Token}

/-- In order, a token shares places with no other. -/
theorem filter_meets (arranged : Arranged tokens) (member : token ∈ tokens) :
    tokens.filter (fun other => other.span.Meets token.span) = [token] := by
  have itself : token.span.Meets token.span := ⟨arranged.proper token member, arranged.proper token member⟩
  obtain ⟨before, after, rfl⟩ := List.append_of_mem member
  obtain ⟨-, later, earlier⟩ := List.pairwise_append.mp arranged.ordered
  have noneBefore : before.filter (fun other => other.span.Meets token.span) = [] := by
    refine List.filter_eq_nil_iff.mpr fun other among meets => ?_
    have stops := earlier other among token (List.mem_cons_self ..)
    exact (stops.trans_lt (of_decide_eq_true meets).2).false
  have noneAfter : after.filter (fun other => other.span.Meets token.span) = [] := by
    refine List.filter_eq_nil_iff.mpr fun other among meets => ?_
    have starts := (List.pairwise_cons.mp later).1 other among
    exact (starts.trans_lt (of_decide_eq_true meets).1).false
  rw [List.filter_append, noneBefore, List.filter_cons, noneAfter, if_pos (decide_eq_true itself), List.nil_append]

theorem eq_of_start (arranged : Arranged tokens) {other : Token} (member : token ∈ tokens) (among : other ∈ tokens)
    (start : token.span.start = other.span.start) : token = other := by
  have meets : token.span.Meets other.span := by
    refine ⟨?_, ?_⟩
    · rw [start]
      exact arranged.proper other among
    · rw [← start]
      exact arranged.proper token member
  have found : token ∈ tokens.filter (fun one => one.span.Meets other.span) :=
    List.mem_filter.mpr ⟨member, decide_eq_true meets⟩
  rw [arranged.filter_meets among] at found
  exact List.mem_singleton.mp found

end Grammar.Arranged

section Tokens

variable {source before word after : List Char}

/-- In a source text that is scanned to its end, a token is found at every word, and what follows the word when
the source is terminated is no part of a name. -/
theorem Source.HasWord.found (has : HasWord source before word after)
    (finished : (Token.scan (terminate source)).ending = .finished) :
    ∃ rest, Text.Stops Token.isNamePart rest ∧
      Token.IsFoundAmong (Token.scan (terminate source)).tokens (Position.first.advance before) (word ++ rest) := by
  obtain ⟨kept, s, passed⟩ := Scan.passes {} before (word ++ after)
  have code : s.region = .code := passed.region.trans has.code
  have outside : s.region ≠ .comment := by simp [code]
  have place : Position.first.advance kept = Position.first.advance before :=
    (passed.aligned ⟨rfl, fun _ => rfl⟩).place outside
  have parts := has.identifier.parts
  rw [String.toList_ofList] at parts
  obtain ⟨next, codeNext, same⟩ := isKept_members parts (by decide) after s code
  have whole : terminate source = kept ++ (word ++ terminateFrom next after) := by
    rw [terminate, has.split, List.append_assoc, passed.same, same]
  have codeKept : Region.past .code kept = .code := by
    have past := passed.uncommented
    rw [code] at past
    exact past
  obtain ⟨c, later, spelled, start, -⟩ := has.identifier
  rw [String.toList_ofList] at spelled
  refine ⟨_, stops_code codeNext has.right (by decide), ?_⟩
  rw [← place]
  subst spelled
  refine Token.scanFrom_found_among finished whole codeKept start ?_
  rw [passed.last outside]
  exact has.left

/-- A token that starts where a word starts is the one that is found there. -/
theorem Source.HasWord.token_at (has : HasWord source before word after)
    (finished : (Token.scan (terminate source)).ending = .finished) {token : Token}
    (member : token ∈ (Token.scan (terminate source)).tokens)
    (start : token.span.start = Position.first.advance before) :
    ∃ rest, Text.Stops Token.isNamePart rest ∧
      ∃ mode : Token.Mode, Token.lexeme? mode.accepts (word ++ rest) = some (token.kind, token.text) := by
  obtain ⟨rest, stops, mode, kind, text, found, among⟩ := has.found finished
  have same := (Token.scan_arranged _).eq_of_start member among start
  subst same
  exact ⟨rest, stops, mode, found⟩

end Tokens

/-- Where names are not looked for, only four words may be. -/
theorem Token.Mode.accepts_word {mode : Mode} {w : Word} (noName : mode.accepts .name = false)
    (accepted : mode.accepts (.word w)) : w ∈ [Word.and, .or, .in, .if] := by
  revert noName accepted
  cases mode <;> cases w <;> decide

/-- A word that is cut off the front of a longer one is `and`, `or`, `in` or `if`. -/
theorem Token.IsCutOff.word {source : List Char} {token : Token} {w : Word} (cut : token.IsCutOff source)
    (finished : (scan (Source.terminate source)).ending = .finished)
    (member : token ∈ (scan (Source.terminate source)).tokens) (kind : token.kind = .word w) :
    w ∈ [Word.and, .or, .in, .if] := by
  obtain ⟨before, c, more, after, has, start⟩ := cut
  obtain ⟨rest, stops, mode, found⟩ := has.token_at finished member start
  rcases lexeme?_word has.identifier stops found with ⟨-, text⟩ | ⟨v, same, -, -, noName, accepted⟩
  · have longer := congrArg List.length text
    rw [List.length_append, List.length_cons] at longer
    omega
  · cases kind.symm.trans same
    exact Mode.accepts_word noName accepted

namespace Symbol

/-- The name that a symbol is, if it is one. -/
def name? : Symbol → Option Json
  | .name text => some text
  | _ => none

end Symbol

/-- The names of a program from left to right: of variables, parameters and functions, where they are declared and
where they are referred to. -/
def Program.names (program : Program) : List Json := (Node.allSymbols program).filterMap Symbol.name?

theorem Token.symbol_name? (token : Token) :
    token.symbol.name? = if token.kind = .name then some (Grammar.textOf token) else none := by
  unfold symbol
  split <;> simp_all [Symbol.name?, Symbol.ofWord, Symbol.ofMark]

/-- The names of a program are the name tokens of its source. -/
theorem Program.mem_names {source : String} {program : Program} (parsed : Program.parse source = .ok program)
    {name : Json} : name ∈ program.names ↔
      ∃ token ∈ (scanned source).tokens, token.kind = .name ∧ Grammar.textOf token = name := by
  obtain ⟨-, -, derived⟩ := parse_ok parsed
  rw [names, ← derived.yields Token.scan_spelled, Grammar.yield]
  simp only [List.mem_filterMap, List.mem_map, List.mem_filter]
  constructor
  · rintro ⟨_, ⟨token, ⟨member, -⟩, rfl⟩, found⟩
    rw [Token.symbol_name?] at found
    split at found
    · exact ⟨token, member, ‹_›, Option.some.inj found⟩
    · cases found
  · rintro ⟨token, member, kind, rfl⟩
    refine ⟨token.symbol, ⟨token, ⟨member, ?_⟩, rfl⟩, ?_⟩
    · rw [Grammar.isMark, kind]
      rfl
    · rw [Token.symbol_name?, if_pos kind]

/-- All names within a program are among its names. -/
theorem Program.isStatement_names {source : String} {program : Program} (parsed : Program.parse source = .ok program) :
    ∀ statement ∈ program,
      statement.IsStatement ⟨fun name => .str name ∈ program.names, fun _ => True, fun _ => True⟩ := by
  obtain ⟨-, -, derived⟩ := parse_ok parsed
  have named : ∀ token ∈ (scanned source).tokens, token.kind = .name → Grammar.textOf token ∈ program.names :=
    fun token member kind => (mem_names parsed).mpr ⟨token, member, kind, rfl⟩
  exact derived.isStatement ⟨Token.scan_spelled, named, fun _ _ _ => trivial, fun _ _ _ _ => trivial⟩

/-- Whether the words of a source text are kept whole in its tokens and in the program. -/
structure Program.KeepsWords (program : Program) (source : String) : Prop where
  /-- Every word of the source is one token: a word of the language if it is spelled like one, and a name
  otherwise. -/
  whole : ∀ before word after, HasWord source.toList before word after →
    let span : Span := ⟨Position.first.advance before, Position.first.advance (before ++ word)⟩
    (scanned source).tokens.filter (fun token => token.span.Meets span) =
      [⟨Token.nameKind (fun _ => true) word, word, span⟩]
  /-- No name of the program is a word of the language. -/
  names : ∀ name ∈ program.names, ∀ w : Word, name ≠ .str w.text
  /-- No word of the language is cut off the front of a longer word. -/
  uncut : ∀ token ∈ (scanned source).tokens, ∀ w, token.kind = .word w → ¬token.IsCutOff source.toList

/-- The words of an accepted source are kept whole exactly if no name among its tokens is spelled like a word of the
language, and none of the tokens `and`, `or`, `in` and `if` is cut off the front of a longer word. -/
theorem Program.keepsWords_iff {source : String} {program : Program} (parsed : Program.parse source = .ok program) :
    program.KeepsWords source ↔
      (∀ token ∈ (scanned source).tokens, token.kind = .name → ∀ w : Word, token.text ≠ w.text.toList) ∧
      ∀ token ∈ (scanned source).tokens, ∀ w ∈ [Word.and, .or, .in, .if], token.kind = .word w →
        ¬token.IsCutOff source.toList := by
  obtain ⟨finished, -, -⟩ := parse_ok parsed
  constructor
  · intro keeps
    refine ⟨fun token member kind w spelled => ?_, fun token member w _ kind => keeps.uncut token member w kind⟩
    refine keeps.names _ ((mem_names parsed).mpr ⟨token, member, kind, rfl⟩) w ?_
    rw [Grammar.textOf, spelled, String.ofList_toList]
  · rintro ⟨free, uncut⟩
    refine ⟨fun before word after has => ?_, fun name member w same => ?_, fun token member w kind cut => ?_⟩
    · obtain ⟨rest, stops, mode, kind, text, found, among⟩ := has.found finished
      have exact : kind = Token.nameKind (fun _ => true) word ∧ text = word := by
        rcases Token.lexeme?_word has.identifier stops found with
          ⟨rfl, rfl⟩ | ⟨w, rfl, spelled, ⟨more, rfl⟩, noName, accepted⟩
        · exact ⟨Token.nameKind_whole fun kind w => free _ among kind w, rfl⟩
        · cases more with
          | nil =>
            rw [List.append_nil, spelled]
            exact ⟨(Token.nameKind_word rfl).symm, rfl⟩
          | cons c more =>
            have whole := uncut _ among w (Token.Mode.accepts_word noName accepted) rfl
            exact absurd ⟨before, c, more, after, has, rfl⟩ whole
      obtain ⟨rfl, rfl⟩ := exact
      rw [Position.advance_append]
      exact (Token.scan_arranged _).filter_meets among
    · subst same
      obtain ⟨token, among, kind, same⟩ := (mem_names parsed).mp member
      refine free token among kind w ?_
      rw [← Json.str.inj same, String.toList_ofList]
    · exact uncut token member w (cut.word finished member kind) kind cut

/-- A token with something behind it that is no part of a name is not cut off. -/
theorem Token.not_isCutOff {source : List Char} {token : Token}
    (apart : ∀ k ≤ source.length, Position.first.advance (source.take k) = token.span.start →
      (source.drop (k + token.text.length)).head?.all (!isNamePart ·)) : ¬token.IsCutOff source := by
  rintro ⟨before, c, more, after, has, start⟩
  have parts := has.identifier.parts
  rw [String.toList_ofList] at parts
  have split : source = before ++ (token.text ++ c :: (more ++ after)) := by simp [has.split]
  have inside : before.length ≤ source.length := by simp [split]
  have place : Position.first.advance (source.take before.length) = token.span.start := by
    rw [split, List.take_left, start]
  have behind : (source.drop (before.length + token.text.length)).head? = some c := by
    rw [split, ← List.append_assoc, ← List.length_append, List.drop_left]
    rfl
  have notPart := apart _ inside place
  rw [behind, Option.all_some, parts c (by simp)] at notPart
  cases notPart

/-- A source with names that begin like `print` and `or`, and with `and` between them. -/
def Source.longerNames : String := "var printer = true\nprint printer and order"

/-- Names that begin like words are kept whole, and so is a word that nothing is joined to. -/
theorem Program.keepsWords_iff_longer :
    ∃ program, Program.parse Source.longerNames = .ok program ∧
      (∃ token ∈ (scanned Source.longerNames).tokens, token.kind = .word .and) ∧
      program.KeepsWords Source.longerNames := by
  have accepted : (Program.parse Source.longerNames).isOk = true := by decide +kernel
  have free : ∀ token ∈ (scanned Source.longerNames).tokens, token.kind = .name →
      ∀ w ∈ Word.all, token.text ≠ w.text.toList := by decide +kernel
  have joins : ∃ token ∈ (scanned Source.longerNames).tokens, token.kind = .word .and := by decide +kernel
  have apart : ∀ token ∈ (scanned Source.longerNames).tokens, ∀ w ∈ [Word.and, .or, .in, .if],
      token.kind = .word w → ∀ k ≤ Source.longerNames.toList.length,
        Position.first.advance (Source.longerNames.toList.take k) = token.span.start →
          (Source.longerNames.toList.drop (k + token.text.length)).head?.all (!Token.isNamePart ·) := by
    decide +kernel
  obtain ⟨program, parsed⟩ := exists_of_isOk accepted
  refine ⟨program, parsed, joins, (keepsWords_iff parsed).mpr ⟨fun token member kind w => ?_, ?_⟩⟩
  · exact free token member kind w (by cases w <;> decide)
  · exact fun token member w among kind => Token.not_isCutOff (apart token member w among kind)

/-- After an operand `and` is cut off the front of `andx`, and behind `var` the word `print` is a name. -/
theorem Program.keepsWords_fails :
    (∃ program, Program.parse "1 andx" = .ok program ∧ ¬program.KeepsWords "1 andx") ∧
      ∃ program, Program.parse "var print = 1" = .ok program ∧ ¬program.KeepsWords "var print = 1" := by
  constructor
  · have accepted : (Program.parse "1 andx").isOk = true := by decide +kernel
    have cut : ⟨.word .and, Word.and.text.toList, ⟨⟨1, 3⟩, ⟨1, 6⟩⟩⟩ ∈ (scanned "1 andx").tokens := by decide +kernel
    obtain ⟨program, parsed⟩ := exists_of_isOk accepted
    have left : ∀ c, ['1', ' '].getLast? = some c → Token.isNamePart c = false := by
      intro c last
      cases Option.some.inj last
      decide
    have word : HasWord "1 andx".toList ['1', ' '] ['a', 'n', 'd', 'x'] [] :=
      ⟨rfl, rfl, ⟨'a', ['n', 'd', 'x'], String.toList_ofList, by decide, List.all_eq_true.mp (by decide)⟩, left, .nil _⟩
    exact ⟨program, parsed, fun keeps => keeps.uncut _ cut .and rfl ⟨['1', ' '], 'x', [], [], word, rfl⟩⟩
  · have accepted : (Program.parse "var print = 1").isOk = true := by decide +kernel
    have name : ⟨.name, Word.print.text.toList, ⟨⟨1, 5⟩, ⟨1, 10⟩⟩⟩ ∈ (scanned "var print = 1").tokens := by
      decide +kernel
    obtain ⟨program, parsed⟩ := exists_of_isOk accepted
    refine ⟨program, parsed, fun keeps => keeps.names _ ((mem_names parsed).mpr ⟨_, name, rfl, rfl⟩) .print ?_⟩
    rw [Grammar.textOf, String.ofList_toList]

end PhyLang
