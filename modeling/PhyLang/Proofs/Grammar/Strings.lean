import PhyLang.Proofs.Grammar.Concatenation
import PhyLang.Proofs.Token.Strings

namespace PhyLang

open Source (Position Region Scan StringLiteral stringLiterals quoted terminate)
open Token (IsInside stringLiteral?)

/-- A literal stands in a source where it says, between quotes, and what is put out for the text before it and for
the text behind it does not depend on what stands between them. -/
def Source.StringLiteral.IsInert (source : List Char) (literal : StringLiteral) : Prop :=
  ∃ before inside rest, source = before ++ (quoted inside ++ rest) ∧ IsInside inside ∧ literal.text = quoted inside ∧
    literal.span = ⟨Position.first.advance before, (Position.first.advance before).advance (quoted inside)⟩ ∧
      ∃ kept later, ∀ other, IsInside other →
        terminate (before ++ (quoted other ++ rest)) = kept ++ (quoted other ++ later)

/-- Termination reads the strings and the round brackets of a source as its tokens tell them. Termination goes
over single characters, before there are tokens. -/
structure Source.AgreesWith (source : List Char) (tokens : List Token) : Prop where
  /-- The literals that termination delimits are the string tokens, in order, with their texts and places. -/
  strings : stringLiterals source = tokens.filterMap stringLiteral?
  ended : (Scan.behind {} source []).region.inString = false
  unbracketed : (Scan.behind {} source []).depth = 0
  /-- A round bracket that closes in code finds one open. -/
  opened : ∀ before rest, source = before ++ ')' :: rest → (Scan.behind {} before (')' :: rest)).region = .code →
    (Scan.behind {} before (')' :: rest)).depth ≠ 0
  /-- What stands in a literal matters nowhere else. -/
  inert : ∀ literal ∈ stringLiterals source, literal.IsInert source
  /-- Exactly the places in string tokens, behind the quotes that begin them, are in a string for termination. -/
  inString : ∀ before rest, source = before ++ rest →
    ((Scan.behind {} before rest).region.inString ↔ ∃ token ∈ tokens, token.kind = .string ∧
      token.span.start < Position.first.advance before ∧ Position.first.advance before < token.span.stop)

namespace Program.Reads

variable {source before rest : List Char} {tokens : List Token} {program : Program}

theorem strings (reads : Reads (terminate source) tokens program) :
    stringLiterals source = tokens.filterMap stringLiteral? := by
  rw [← Source.stringLiterals_terminate]
  exact reads.scans.literalsFrom

theorem ended (reads : Reads (terminate source) tokens program) :
    (Scan.behind {} source []).region.inString = false := by
  rw [← Region.inString_uncommented, ← Scan.past_kept, Scan.kept_nil]
  exact congrArg Region.inString reads.scans.tells.code

/-- A round bracket that closes in the code of a program finds one open. -/
theorem opened (reads : Reads (terminate (before ++ ')' :: rest)) tokens program)
    (code : (Scan.behind {} before (')' :: rest)).region = .code) :
    (Scan.behind {} before (')' :: rest)).depth ≠ 0 := by
  generalize reached : Scan.behind {} before (')' :: rest) = s at code
  have put : s.emitted ')' rest.head? = [')'] := (Scan.keeps_of_code code (by decide) (by simp)).emitted
  have text : terminate (before ++ ')' :: rest) =
      Scan.kept {} before (')' :: rest) ++ ')' :: Source.terminateFrom (s.step ')' rest.head?) rest := by
    rw [terminate, Scan.terminateFrom_append, reached, Scan.terminateFrom_cons, put]
    rfl
  have inCode : Region.past .code (Scan.kept {} before (')' :: rest)) = .code := by
    have past := Scan.past_kept {} before (')' :: rest)
    rw [reached, code] at past
    exact past
  have balanced (depth : Nat) : Region.depthPast .code depth (terminate (before ++ ')' :: rest)) = depth := by
    rw [reads.scans.tells.depth, reads.derived.balanced]
  rw [text] at balanced
  rw [← reached, ← Scan.depthPast_kept]
  exact Region.depthPast_ne_zero inCode balanced

/-- The inside of a literal is that of a string token, and termination passes it without a change of its own. -/
theorem inert (reads : Reads (terminate source) tokens program) {literal : StringLiteral}
    (member : literal ∈ stringLiterals source) : literal.IsInert source := by
  obtain ⟨before, rest, split, span, code⟩ := Source.stands_of_stringLiterals member
  rw [reads.strings] at member
  obtain ⟨token, among, same⟩ := List.mem_filterMap.mp member
  obtain ⟨string, rfl⟩ := Token.stringLiteral?_eq_some.mp same
  obtain ⟨inside, closed, text⟩ := reads.scans.quoted token among string
  simp only [text] at split span code
  exact ⟨before, inside, rest, split, closed, text, span, Source.terminate_quoted code⟩

theorem inString_iff (reads : Reads (terminate (before ++ rest)) tokens program) :
    (Scan.behind {} before rest).region.inString ↔ ∃ token ∈ tokens, token.kind = .string ∧
      token.span.start < Position.first.advance before ∧ Position.first.advance before < token.span.stop := by
  rw [Source.inString_behind_iff reads.ended, reads.strings]
  constructor
  · rintro ⟨literal, member, holds⟩
    obtain ⟨token, among, same⟩ := List.mem_filterMap.mp member
    obtain ⟨string, rfl⟩ := Token.stringLiteral?_eq_some.mp same
    exact ⟨token, among, string, holds⟩
  · rintro ⟨token, among, string, holds⟩
    exact ⟨_, List.mem_filterMap.mpr ⟨token, among, Token.stringLiteral?_eq_some.mpr ⟨string, rfl⟩⟩, holds⟩

end Program.Reads

namespace Program

/-- Of a program, termination reads the strings and the round brackets as scanning does. -/
theorem parse_agrees {source : String} {program : Program} (parsed : parse source = .ok program) :
    Source.AgreesWith source.toList (scanned source).tokens := by
  have reads := reads_of_parse parsed
  refine ⟨reads.strings, reads.ended, ?_, ?_, fun literal member => reads.inert member, ?_⟩
  · rw [← Scan.depthPast_kept, Scan.kept_nil]
    exact reads.unbracketed
  · intro before rest split code
    rw [split] at reads
    exact reads.opened code
  · intro before rest split
    rw [split] at reads
    exact reads.inString_iff

/-- Backslashes before quotes, brackets and slashes in strings, and quotes in a comment. -/
theorem parse_agrees_escaped :
    ∃ program, parse "print (\"a // (\\\\\" + \"\\\\\\\");\") // \"b\nprint \"\"" = .ok program ∧
      Source.AgreesWith "print (\"a // (\\\\\" + \"\\\\\\\");\") // \"b\nprint \"\"".toList
        (scanned "print (\"a // (\\\\\" + \"\\\\\\\");\") // \"b\nprint \"\"").tokens := by
  have accepted : (parse "print (\"a // (\\\\\" + \"\\\\\\\");\") // \"b\nprint \"\"").isOk = true := by decide +kernel
  obtain ⟨program, parsed⟩ := exists_of_isOk accepted
  exact ⟨program, parsed, parse_agrees parsed⟩

end Program

end PhyLang
