import PhyLang.Proofs.Grammar.Completeness
import PhyLang.Proofs.Grammar.Modes
import PhyLang.Proofs.Grammar.Relocation
import PhyLang.Proofs.Source.Terminated

namespace PhyLang

/-- The tokens of a source text that ends well and has no malformed literal form the program that they
derive. -/
theorem Grammar.parseTokens_ok {scanned : Token.Scanned} {nodes : List Node}
    (ended : scanned.ending = .finished) (literals : ∀ token ∈ scanned.tokens, Token.literalFault? token = none)
    (derived : Statements scanned.tokens nodes) : parseTokens scanned = .ok nodes := by
  have noFault : literalError? scanned.tokens = none := by
    refine List.findSome?_eq_none_iff.mpr fun token member => ?_
    rw [literals token member]
    rfl
  rw [parseTokens, program_iff.mpr derived]
  simp only [ended, endingError?, noFault, Option.or_none]

/-- Whatever the grammar derives is accepted when its tokens are written one blank apart, and read as what
was derived, up to locations. -/
theorem Program.parse_written {tokens : List Token} {nodes : List Node} (derived : Grammar.Statements tokens nodes)
    (texts : ∀ token ∈ tokens, Token.IsTextOf token.kind token.text) :
    ∃ program, Program.parse (String.ofList (Token.written tokens)) = .ok program ∧ Node.SameTrees program nodes := by
  obtain ⟨last, leads⟩ := Grammar.program_leads derived
  obtain ⟨alike, ended⟩ := Token.scanFrom_written leads texts .first
  obtain ⟨program, derivedProgram, same⟩ := derived.relocated alike
  refine ⟨program, ?_, same⟩
  have literals : ∀ token ∈ (Token.scan (Token.written tokens)).tokens, Token.literalFault? token = none := by
    intro token member
    have spelled : token.spelling ∈ tokens.map Token.spelling := alike ▸ List.mem_map_of_mem member
    obtain ⟨original, found, spelling⟩ := List.mem_map.mp spelled
    obtain ⟨kind, text⟩ := Prod.mk.inj spelling
    exact Token.literalFault?_textOf (kind ▸ text ▸ texts original found)
  rw [parse, String.toList_ofList, Source.terminate_written texts]
  exact Grammar.parseTokens_ok ended literals derivedProgram

/-- A loop over a range with a sign, and a string with a quote in it: the sign belongs to the bound, and the
quote ends no string. -/
theorem Program.parse_written_range :
    ∃ program, Program.parse "; for i in -3 .. 4 \x7b print - \"a\\\"b\" \x7d" = .ok program ∧
      Node.SameTrees program [.forStmt (.varDecl (.str "i") .absent none) (.int (-3)) (.int 4)
        (.block [.printStmt (.unary (.str "-") (.strLiteral (.str "a\"b") none) none) none] none) none] := by
  let token (kind : Kind) (text : String) : Token := ⟨kind, text.toList, ⟨.first, .first⟩⟩
  have string : Grammar.Expr Grammar.primaryRank [token .string "\"a\\\"b\""] _ := .leaf rfl
  have signed : Grammar.Expr Grammar.unaryRank (token (.mark .minus) "-" :: _) _ :=
    .sign (.inr rfl) (.looser (.looser string))
  have expr : Grammar.Expr 0 _ _ := .looser (.looser (.looser (.looser (.looser (.looser (.looser signed))))))
  have printed : Grammar.Simple (token (.word .print) "print" :: _) _ := .print rfl expr
  have body : Grammar.Block (token (.mark .openCurly) "\x7b" :: _ ++ [token (.mark .closeCurly) "\x7d"]) _ :=
    .curly rfl rfl (.last printed)
  have range : Grammar.Bounds [token .bound "-3", token (.mark .range) "..", token .bound "4"] _ := .two rfl rfl rfl
  have loop : Grammar.Compound (token (.word .for) "for" :: token .name "i" :: token (.word .in) "in" :: _ ++ _) _ :=
    .for rfl rfl rfl range body
  have derived : Grammar.Statements (token (.mark .semicolon) ";" :: (_ ++ [])) _ := .semicolon rfl (.compound loop .none)
  have three : Token.IsDigits ['3'] := ⟨by decide, List.all_eq_true.mp (by decide)⟩
  have four : Token.IsDigits ['4'] := ⟨by decide, List.all_eq_true.mp (by decide)⟩
  have i : Token.IsIdentifier (String.ofList ['i']) := ⟨'i', [], rfl, by decide, List.forall_mem_nil _⟩
  have inside : Token.IsInside ['a', '\\', '"', 'b'] :=
    .plain (by decide) (by decide) (by decide) (.escaped (by decide)
      (.plain (by decide) (by decide) (by decide) .empty))
  obtain ⟨program, parsed, same⟩ := parse_written derived (by
    simp only [List.cons_append, List.nil_append, List.append_nil, List.forall_mem_cons]
    exact ⟨.mark .semicolon, .word .for, .name i (fun w => by cases w <;> decide), .word .in, .negative three (by decide),
      .mark .range, .bound four (by decide), .mark .openCurly, .word .print, .mark .minus,
      .string inside (by decide +kernel), .mark .closeCurly,
      List.forall_mem_nil _⟩)
  have value : Token.stringValue? "\"a\\\"b\"".toList = some "a\"b" := by decide +kernel
  refine ⟨program, parsed, same.trans ?_⟩
  simp only [Node.allUnlocated, Node.unlocated, token, value]
  rfl

end PhyLang
