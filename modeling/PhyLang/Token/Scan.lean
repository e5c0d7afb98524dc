import PhyLang.Text.Blank
import PhyLang.Token.Lexeme
import PhyLang.Token.Mode

namespace PhyLang.Token

/-- Why scanning ended: at the end of the text, at a token that cannot stand where it is, or at a
character that begins no token. -/
inductive Ending
  | finished
  | misplaced (text : List Char) (place : Source.Position)
  | unknown (c : Char) (place : Source.Position)
  deriving DecidableEq, Repr, Inhabited

structure Scanned where
  tokens : List Token
  ending : Ending
  deriving DecidableEq, Repr, Inhabited

/-- What stands at a place where nothing that is looked for fits. -/
def endingAt (place : Source.Position) : List Char → Ending
  | [] => .finished
  | c :: rest =>
    match lexeme? (fun _ => true) (c :: rest) with
    | some (_, text) => .misplaced text place
    | none => .unknown c place

/-- The tokens of a text that starts at a place. Each is looked for in the mode that the tokens
before it lead to, and scanning ends where nothing that is looked for fits. -/
def scanFrom (mode : Mode) (place : Source.Position) (input : List Char) : Scanned :=
  let blanks := input.takeWhile Text.isSeparator
  let rest := input.drop blanks.length
  let start := place.advance blanks
  match lexeme? mode.accepts rest with
  | none => ⟨[], endingAt start rest⟩
  | some (kind, text) =>
    if _progress : 0 < text.length ∧ text.length ≤ rest.length then
      let stop := start.advance text
      let later := scanFrom (mode.next kind) stop (rest.drop text.length)
      { later with tokens := ⟨kind, text, ⟨start, stop⟩⟩ :: later.tokens }
    else ⟨[], endingAt start rest⟩
termination_by input.length
decreasing_by simp only [rest, List.length_drop] at _progress ⊢; omega

def scan (input : List Char) : Scanned := scanFrom .program .first input

end PhyLang.Token
