import PhyLang.Proofs.Source.Literals
import PhyLang.Proofs.Token.Characters

namespace PhyLang.Token

open Source (Position StringLiteral quoted)
open Source.Region (literalsFrom_code literalsFrom_quoted)

/-- A token that is a string, as a literal. -/
def stringLiteral? (token : Token) : Option StringLiteral :=
  if token.kind = .string then some ⟨token.text, token.span⟩ else none

theorem stringLiteral?_eq_some {token : Token} {literal : StringLiteral} :
    stringLiteral? token = some literal ↔ token.kind = .string ∧ ⟨token.text, token.span⟩ = literal := by
  unfold stringLiteral?
  split <;> simp_all

variable {accepts : Kind → Bool} {mode : Mode} {place : Position} {input text : List Char} {kind : Kind}
  {tokens : List Token}

theorem nameKind_ne_string (accepts : Kind → Bool) (name : List Char) : nameKind accepts name ≠ .string := by
  unfold nameKind
  split
  · nofun
  · nofun

theorem ne_string_of_mem (member : kind ∈ fixedKinds) : kind ≠ .string := by
  rcases List.mem_append.mp member with word | mark
  · obtain ⟨w, -, rfl⟩ := List.mem_map.mp word
    nofun
  · obtain ⟨m, -, rfl⟩ := List.mem_map.mp mark
    nofun

/-- The text of a string is between quotes. -/
theorem lexeme?_string (found : lexeme? accepts input = some (.string, text)) :
    ∃ inside, IsInside inside ∧ text = quoted inside := by
  generalize string : Kind.string = kind at found
  cases lexeme?_isLexeme found with
  | string some => exact stringLexeme_closed some
  | name => exact absurd string.symm (nameKind_ne_string accepts _)
  | fixed member => exact absurd string.symm (ne_string_of_mem member)
  | real | bound | int => cases string

/-- No other token has a quote in its text. -/
theorem IsMade.noQuote (made : IsMade kind text) (other : kind ≠ .string) : ∀ c ∈ text, c ≠ '"' := by
  cases made with
  | plain _ _ plain => exact fun c member => isPlain_ne (plain c member) _ (by decide)
  | string => exact absurd rfl other
  | mark m =>
    have others : m.text.toList.all (· != '"') := by cases m <;> decide
    intro c member
    simpa using List.all_eq_true.mp others c member

theorem Scans.quoted (scans : Scans mode place input tokens) :
    ∀ token ∈ tokens, token.kind = .string → ∃ inside, IsInside inside ∧ token.text = Source.quoted inside := by
  induction scans with
  | blanks => exact List.forall_mem_nil _
  | token _ found _ _ ih =>
    refine List.forall_mem_cons.mpr ⟨fun string => ?_, ih⟩
    subst string
    exact lexeme?_string found

/-- The string literals of a text that is scanned to its end are its string tokens. -/
theorem Scans.literalsFrom (scans : Scans mode place input tokens) :
    Source.Region.literalsFrom .code place [] input = tokens.filterMap stringLiteral? := by
  induction scans with
  | @blanks _ place blanks separators =>
    rw [← List.append_nil blanks, literalsFrom_code fun c member => (isSeparator_ne (separators c member)).1]
    rfl
  | @token _ place blanks text behind kind later separators found _ _ ih =>
    rw [literalsFrom_code fun c member => (isSeparator_ne (separators c member)).1, List.filterMap_cons, ← ih]
    by_cases string : kind = .string
    · subst string
      obtain ⟨inside, closed, rfl⟩ := lexeme?_string found
      rw [literalsFrom_quoted closed]
      rfl
    · rw [literalsFrom_code ((lexeme?_isMade found).noQuote string)]
      simp only [stringLiteral?, if_neg string]

end PhyLang.Token
