import PhyLang.Proofs.Grammar.Accepted
import PhyLang.Proofs.Grammar.Brackets
import PhyLang.Proofs.Grammar.Lowered
import PhyLang.Proofs.Grammar.Parse
import PhyLang.Proofs.Grammar.Sequence
import PhyLang.Proofs.Source.Lines

namespace PhyLang

open Grammar (IsEnded Statements)
open Source (Position Region IsClosed lastVisible terminate)
open Token (Mode Scans)

/-- A terminated text is scanned to its end as tokens that derive a program, and whose literals have values. -/
structure Program.Reads (text : List Char) (tokens : List Token) (program : Program) : Prop where
  scans : Scans .program .first text tokens
  literals : ∀ token ∈ tokens, Token.literalFault? token = none
  derived : Statements tokens program

/-- What a line end puts out behind a text of code: a semicolon, if a statement is open. -/
def Source.closing (text : List Char) : List Char := if IsClosed (lastVisible text) then [] else [';']

theorem Source.count_closing (text : List Char) : (closing text).count '\n' = 0 := by
  unfold closing
  split <;> rfl

namespace Program

theorem reads_of_parse {source : String} {program : Program} (parsed : parse source = .ok program) :
    Reads (terminate source.toList) (scanned source).tokens program := by
  obtain ⟨ended, literals, derived⟩ := parse_ok parsed
  exact ⟨Token.scans_of_finished ended, literals, derived⟩

namespace Reads

variable {text rest : List Char} {tokens later : List Token} {program others : Program}

theorem parse_eq {source : String} (reads : Reads (terminate source.toList) tokens program) :
    parse source = .ok program := by
  have scanned : Token.scan (terminate source.toList) = ⟨tokens, .finished⟩ := reads.scans.scanFrom_eq
  rw [parse, scanned]
  exact Grammar.parseTokens_ok rfl reads.literals reads.derived

theorem unbracketed (reads : Reads text tokens program) : Region.depthPast .code 0 text = 0 := by
  rw [reads.scans.tells.depth, reads.derived.balanced]

/-- Below a program, termination starts again. -/
theorem terminate_append {first : List Char} (reads : Reads (terminate first) tokens program) (rest : List Char) :
    terminate (first ++ '\n' :: rest) =
      terminate first ++ Source.closing (terminate first) ++ '\n' :: terminate rest :=
  Source.terminate_append_lineEnd reads.scans.tells.code reads.unbracketed rest

/-- With what a line end puts out behind it, the text of a program leaves no statement open. -/
theorem closed (reads : Reads text tokens program) :
    ∃ ended, Reads (text ++ Source.closing text) ended program ∧ IsEnded ended := by
  unfold Source.closing
  split
  next isClosed =>
    rw [List.append_nil]
    exact ⟨tokens, reads, reads.scans.tells.closed isClosed⟩
  next =>
    let place := Position.first.advance text
    let mark : Token := ⟨.mark .semicolon, [';'], ⟨place, place.advance [';']⟩⟩
    have derived : Statements (tokens ++ [mark]) program := reads.derived.ended rfl
    -- The tokens with the semicolon derive a program too, so a semicolon is looked for behind them.
    have accepted : (Mode.program.after tokens).accepts (.mark .semicolon) := by
      obtain ⟨last, leads⟩ := Grammar.program_leads derived
      exact leads.accepts
    have semicolon : Scans (Mode.program.after tokens) place [';'] [mark] :=
      .single place (Token.lexeme?_textOf accepted (.mark .semicolon) nofun) ⟨_, _, rfl, by decide⟩
    have cut : Token.IsCut [';'] := fun c first => .inl (Option.some.inj first).symm
    refine ⟨tokens ++ [mark], ⟨reads.scans.append cut semicolon, ?_, derived⟩, Grammar.isEnded_concat rfl⟩
    exact List.forall_mem_append.mpr ⟨reads.literals, List.forall_mem_singleton.mpr rfl⟩

/-- A program goes on with another one below it, if no statement is open and the other one could not be an
alternative. -/
theorem below (reads : Reads text tokens program) (ended : IsEnded tokens) (readsLater : Reads rest later others)
    (noElse : ∀ token ∈ later.head?, token.text ≠ Word.else.text.toList) :
    let lines := text.count '\n' + 1
    Reads (text ++ '\n' :: rest) (tokens ++ Grammar.allLowered lines later)
      (program ++ Node.allLowered lines others) := by
  intro lines
  obtain ⟨last, leads⟩ := Grammar.program_leads reads.derived
  have restarts : (Mode.program.after tokens).Restarts :=
    leads.eq_after ▸ leads.restarts ended fun _ => Mode.restarts_program
  -- Behind the line end the text below stands as if it were alone, only lower.
  have place : (Position.first.advance text).advance ['\n'] = Position.first.lowered lines := by
    rw [← Position.advance_append, Position.advance_lineEnd]
    exact congrArg (Position.mk · 1) (Nat.add_assoc ..)
  have scans : Scans (Mode.program.after tokens) (Position.first.advance text) (['\n'] ++ rest)
      (Grammar.allLowered lines later) := by
    refine .prepend (List.forall_mem_singleton.mpr rfl) (.restart restarts ?_ ?_)
    · intro token first
      rw [Grammar.allLowered, List.head?_map] at first
      obtain ⟨original, member, rfl⟩ := Option.map_eq_some_iff.mp first
      exact noElse original member
    · rw [place]
      exact readsLater.scans.lowered lines
  have cut : Token.IsCut (['\n'] ++ rest) := fun c first => .inr (Option.some.inj first).symm
  refine ⟨reads.scans.append cut scans, ?_, reads.derived.append ended (readsLater.derived.lowered lines)⟩
  refine List.forall_mem_append.mpr ⟨reads.literals, fun token member => ?_⟩
  obtain ⟨original, found, rfl⟩ := List.mem_map.mp member
  exact readsLater.literals original found

/-- A program with another one below it, as source texts. -/
theorem joined {first second : List Char} (reads : Reads (terminate first) tokens program)
    (readsLater : Reads (terminate second) later others)
    (noElse : ∀ token ∈ later.head?, token.text ≠ Word.else.text.toList) :
    ∃ all, Reads (terminate (first ++ '\n' :: second)) all
      (program ++ Node.allLowered (first.count '\n' + 1) others) := by
  obtain ⟨ended, readsEnded, isEnded⟩ := reads.closed
  have whole := readsEnded.below isEnded readsLater noElse
  rw [List.count_append, Source.count_closing, Source.count_terminate, Nat.add_zero] at whole
  rw [reads.terminate_append]
  exact ⟨_, whole⟩

end Reads

/-- Below a program, any other one that does not begin with the word before an alternative goes on: all its
statements follow, as many lines lower as the program before has lines. A line end alone changes nothing. -/
theorem parse_below {first : String} {program : Program} (parsed : parse first = .ok program) :
    (∀ second others, parse second = .ok others →
      (∀ token ∈ (scanned second).tokens.head?, String.ofList token.text ≠ "else") →
      parse (first ++ "\n" ++ second) =
        .ok (program ++ others.map (Node.lowered (first.toList.count '\n' + 1)))) ∧
      parse (first ++ "\n") = .ok program := by
  have reads := reads_of_parse parsed
  constructor
  · intro second others parsedLater noElse
    obtain ⟨all, whole⟩ := reads.joined (reads_of_parse parsedLater) fun token member other =>
      noElse token member (by rw [other, String.ofList_toList]; rfl)
    have text : (first ++ "\n" ++ second).toList = first.toList ++ '\n' :: second.toList := by
      rw [String.toList_append, String.toList_append, List.append_assoc]
      rfl
    rw [← Node.allLowered_eq_map]
    exact Reads.parse_eq (text ▸ whole)
  · have empty : Reads (terminate []) [] [] :=
      ⟨.blanks (List.forall_mem_nil _), List.forall_mem_nil _, .none⟩
    obtain ⟨all, whole⟩ := reads.joined empty nofun
    have text : (first ++ "\n").toList = first.toList ++ ['\n'] := String.toList_append
    rw [Node.allLowered, List.append_nil] at whole
    exact Reads.parse_eq (text ▸ whole)

/-- The first program has an open statement, brackets over two lines and a comment at its end; the second one begins
with an empty line. -/
theorem parse_below_open :
    ∃ program others, parse "var x = f(1,\n2) // x" = .ok program ∧ parse "\nif x {print x}\nelse {}" = .ok others ∧
      parse "var x = f(1,\n2) // x\n\nif x {print x}\nelse {}" = .ok (program ++ others.map (Node.lowered 2)) ∧
      parse "var x = f(1,\n2) // x\n" = .ok program := by
  have accepted : (parse "var x = f(1,\n2) // x").isOk = true := by decide +kernel
  have acceptedLater : (parse "\nif x {print x}\nelse {}").isOk = true := by decide +kernel
  have noElse : ∀ token ∈ (scanned "\nif x {print x}\nelse {}").tokens.head?, String.ofList token.text ≠ "else" := by
    decide +kernel
  obtain ⟨program, parsed⟩ := exists_of_isOk accepted
  obtain ⟨others, parsedLater⟩ := exists_of_isOk acceptedLater
  have counted : "var x = f(1,\n2) // x".toList.count '\n' + 1 = 2 := by decide
  have both : "var x = f(1,\n2) // x" ++ "\n" ++ "\nif x {print x}\nelse {}" =
      "var x = f(1,\n2) // x\n\nif x {print x}\nelse {}" := by decide
  have alone : "var x = f(1,\n2) // x" ++ "\n" = "var x = f(1,\n2) // x\n" := by decide
  obtain ⟨below, ended⟩ := parse_below parsed
  have together := below _ others parsedLater noElse
  rw [counted, both] at together
  rw [alone] at ended
  exact ⟨program, others, parsed, parsedLater, together, ended⟩

/-- A first token that is the word before an alternative may be a name, and then the other text is no program below a
block. -/
example : (parse "else = 1").isOk ∧ (parse "if x {}").isOk ∧ ¬(parse "if x {}\nelse = 1").isOk := by decide +kernel

end Program

end PhyLang
