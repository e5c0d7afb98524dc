import PhyLang.Proofs.Token.Terminal

namespace PhyLang.Token

namespace Mode

/-- The tokens that may come in a mode, one after the other, and the mode that they lead to. -/
inductive Leads : Mode → List Token → Mode → Prop
  | none {mode : Mode} : Leads mode [] mode
  | next {mode last : Mode} {token : Token} {later : List Token} (accepted : mode.accepts token.kind)
      (leads : Leads (mode.next token.kind) later last) : Leads mode (token :: later) last

theorem Leads.append {first middle last : Mode} {tokens later : List Token} (leads : Leads first tokens middle)
    (leadsLater : Leads middle later last) : Leads first (tokens ++ later) last := by
  induction leads with
  | none => exact leadsLater
  | next accepted _ ih => exact .next accepted (ih leadsLater)

end Mode

/-- What a token is apart from its place. -/
def spelling (token : Token) : Kind × List Char := (token.kind, token.text)

/-- The texts of tokens with one blank between each of them and the next. -/
def written (tokens : List Token) : List Char := [' '].intercalate (tokens.map Token.text)

/-- What is written of the tokens that come after another one. -/
def writtenAfter : List Token → List Char
  | [] => []
  | token :: later => ' ' :: written (token :: later)

theorem written_cons (token : Token) (later : List Token) :
    written (token :: later) = token.text ++ writtenAfter later := by
  cases later with
  | nil => simp [written, writtenAfter, List.intercalate]
  | cons next later => simp [written, writtenAfter, List.intercalate]

theorem writtenAfter_isApart (tokens : List Token) : IsApart (writtenAfter tokens) := by
  intro c first
  cases tokens with
  | nil => cases first
  | cons token later => exact (Option.some.inj first).symm

/-- A blank before a text changes nothing but places. -/
theorem scanFrom_separator {c : Char} (separator : Text.isSeparator c) (mode : Mode) (place : Source.Position)
    (input : List Char) : scanFrom mode place (c :: input) = scanFrom mode (place.next c) input := by
  rw [scanFrom, scanFrom]
  simp only [List.takeWhile_cons_of_pos separator, List.length_cons, List.drop_succ_cons]
  rfl

/-- What is found at the start of a text without blanks before it is the first token. -/
theorem scanFrom_found {mode : Mode} {kind : Kind} {text rest : List Char} (place : Source.Position)
    (found : lexeme? mode.accepts (text ++ rest) = some (kind, text))
    (first : ∃ c later, text = c :: later ∧ Text.isSeparator c = false) :
    let later := scanFrom (mode.next kind) (place.advance text) rest
    scanFrom mode place (text ++ rest) =
      { later with tokens := ⟨kind, text, ⟨place, place.advance text⟩⟩ :: later.tokens } := by
  obtain ⟨c, more, rfl, visible⟩ := first
  have noBlanks : (c :: more ++ rest).takeWhile Text.isSeparator = [] :=
    List.takeWhile_cons_of_neg (by simp [visible])
  intro later
  rw [scanFrom]
  simp only [noBlanks, List.length_nil, List.drop_zero, found]
  rw [dif_pos (by simp)]
  simp only [List.drop_left]
  rfl

theorem scanFrom_nil (mode : Mode) (place : Source.Position) : scanFrom mode place [] = ⟨[], .finished⟩ := by
  have nothing : lexeme? mode.accepts [] = none := by
    cases mode <;> decide
  rw [scanFrom]
  simp only [List.takeWhile_nil, List.length_nil, List.drop_nil, nothing]
  rfl

/-- Written tokens are scanned as what they are. -/
theorem scanFrom_written {mode last : Mode} {tokens : List Token} (leads : mode.Leads tokens last)
    (texts : ∀ token ∈ tokens, IsTextOf token.kind token.text) (place : Source.Position) :
    (scanFrom mode place (written tokens)).tokens.map spelling = tokens.map spelling ∧
      (scanFrom mode place (written tokens)).ending = .finished := by
  induction leads generalizing place with
  | none =>
    have nothing : written [] = [] := rfl
    rw [nothing, scanFrom_nil]
    exact ⟨rfl, rfl⟩
  | @next mode last token later accepted _ ih =>
    have inner := ih fun other member => texts other (List.mem_cons_of_mem _ member)
    have textOf := texts token (List.mem_cons_self ..)
    rw [written_cons, scanFrom_found place (lexeme?_textOf accepted textOf (writtenAfter_isApart later)) textOf.first]
    cases later with
    | nil =>
      obtain ⟨same, ended⟩ := inner (place.advance token.text)
      exact ⟨congrArg (token.spelling :: ·) same, ended⟩
    | cons next later =>
      obtain ⟨same, ended⟩ := inner ((place.advance token.text).next ' ')
      rw [writtenAfter, scanFrom_separator (by decide)]
      exact ⟨congrArg (token.spelling :: ·) same, ended⟩

end PhyLang.Token
