import PhyLang.Proofs.Grammar.Precedence
import PhyLang.Proofs.Grammar.Soundness
import PhyLang.Proofs.Grammar.Yield

namespace PhyLang

/-- The tokens of a source text as far as scanning goes, and why it ends there. -/
def Program.scanned (source : String) : Token.Scanned := Token.scan (Source.terminate source.toList)

theorem Program.exists_of_isOk {source : String} (accepted : (Program.parse source).isOk) :
    ∃ program, Program.parse source = .ok program := by
  cases parsed : Program.parse source with
  | error e =>
    rw [parsed] at accepted
    cases accepted
  | ok program => exact ⟨program, rfl⟩

/-- A source text that is a program is scanned to its end, has no malformed literal, and all its tokens
derive the program. -/
theorem Program.parse_ok {source : String} {program : Program} (parsed : Program.parse source = .ok program) :
    (scanned source).ending = .finished ∧ (∀ token ∈ (scanned source).tokens, Token.literalFault? token = none) ∧
      Grammar.Statements (scanned source).tokens program := by
  unfold parse Grammar.parseTokens at parsed
  split at parsed
  · cases parsed
  · rename_i statements rest read
    split at parsed
    · cases parsed
    · rename_i wellFormed
      cases parsed
      obtain ⟨ended, literals⟩ := Option.or_eq_none_iff.mp wellFormed
      refine ⟨?_, ?_, Grammar.program_derived read⟩
      · unfold Grammar.endingError? at ended
        split at ended
        · assumption
        · cases ended
        · cases ended
      · intro token member
        have fine := List.findSome?_eq_none_iff.mp literals token member
        exact Option.map_eq_none_iff.mp fine

theorem Program.parse_isStatement {source : String} {program : Program}
    (parsed : Program.parse source = .ok program) : ∀ statement ∈ program, statement.IsStatement Parts.any := by
  obtain ⟨-, -, derived⟩ := parse_ok parsed
  exact derived.isStatement
    ⟨Token.scan_spelled, fun _ _ _ => trivial, fun _ _ _ => trivial, fun _ _ _ _ => trivial⟩

/-- Whether a program is in the image of the grammar and reads back as a source text. -/
structure Program.IsFormedFrom (program : Program) (source : String) : Prop where
  /-- Every node stands in a place for it, operators are those of the language, and names are its
  identifiers. -/
  shape : ∀ statement ∈ program, statement.IsStatement ⟨Token.IsIdentifier, fun _ => True, fun _ => True⟩
  /-- Every operand has a rank as high as its operator asks for. -/
  ranks : Node.AllRespectRanks program
  ending : (scanned source).ending = .finished
  literals : ∀ token ∈ (scanned source).tokens, Token.literalFault? token = none
  /-- The program says, from left to right, what the tokens of the source say, apart from semicolons. -/
  symbols : Node.allSymbols program = Grammar.yield (scanned source).tokens

/-- Every program that parsing gives is formed from the source. -/
theorem Program.parse_isFormedFrom {source : String} {program : Program}
    (parsed : Program.parse source = .ok program) : program.IsFormedFrom source := by
  obtain ⟨ended, literals, derived⟩ := parse_ok parsed
  have spelled : ∀ token ∈ (scanned source).tokens, Token.Spelled token.kind token.text := Token.scan_spelled
  have fits : Grammar.Fits ⟨Token.IsIdentifier, fun _ => True, fun _ => True⟩ (scanned source).tokens := by
    refine ⟨spelled, ?_, fun _ _ _ => trivial, fun _ _ _ _ => trivial⟩
    intro token member name
    have identifier := spelled token member
    rw [name] at identifier
    exact identifier
  exact ⟨derived.isStatement fits, derived.respectRanks spelled, ended, literals, (derived.yields spelled).symm⟩

/-- A program with nested forms, a conditional chain and operators of several ranks. -/
theorem Program.parse_isFormedFrom_nested :
    ∃ program, Program.parse "if a or b {print 1 - 2 - 3 * -f(x)(y)} else if c {}\nfor i in -3..4 {fn g(a, b) {return a}}" =
      .ok program ∧
      program.IsFormedFrom "if a or b {print 1 - 2 - 3 * -f(x)(y)} else if c {}\nfor i in -3..4 {fn g(a, b) {return a}}" := by
  have accepted : (Program.parse
      "if a or b {print 1 - 2 - 3 * -f(x)(y)} else if c {}\nfor i in -3..4 {fn g(a, b) {return a}}").isOk = true := by
    decide +kernel
  obtain ⟨program, parsed⟩ := exists_of_isOk accepted
  exact ⟨program, parsed, parse_isFormedFrom parsed⟩

end PhyLang
