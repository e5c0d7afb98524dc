import PhyLang.Proofs.Grammar.Completeness
import PhyLang.Proofs.Grammar.Parse
import PhyLang.Proofs.Source.Terminated
import PhyLang.Proofs.Token.Scans

namespace PhyLang

/-- Whether a token is a number with more digits than can be converted. -/
def Token.IsLongNumber (token : Token) : Prop :=
  (token.kind = .int ∨ token.kind = .bound) ∧ Integer.digitLimit < (Integer.splitSign token.text).2.length

theorem Token.literalFault?_tooLong {token : Token} : literalFault? token = some .tooLong ↔ token.IsLongNumber := by
  obtain ⟨kind, text, span⟩ := token
  unfold literalFault? IsLongNumber
  cases kind with
  | string => by_cases none : (stringValue? text).isNone <;> simp [none]
  | int | bound => simp
  | _ => simp

/-- Whether the tokens of a source form statements, and the first of them that is a malformed literal is a
number with too many digits. -/
def Program.HasLongNumber (source : String) : Prop :=
  (scanned source).ending = .finished ∧ (∃ program, Grammar.Statements (scanned source).tokens program) ∧
    ∃ before token after, (scanned source).tokens = before ++ token :: after ∧ token.IsLongNumber ∧
      ∀ earlier ∈ before, Token.literalFault? earlier = none

namespace Grammar

/-- Whether an error tells its place, as far as it has one. -/
def IsPlaced (e : SyntaxError) : Prop := e.place?.isSome ∨ e = .unexpectedEnd

theorem endingError?_place {ending : Token.Ending} {e : SyntaxError} (ended : endingError? ending = some e) :
    e.place?.isSome := by
  cases ending <;> cases ended <;> rfl

theorem errorAt_isPlaced (ending : Token.Ending) (left : List Token) : IsPlaced (errorAt ending left) := by
  cases left with
  | cons token later => exact .inl rfl
  | nil =>
    cases ended : endingError? ending with
    | none => exact .inr (by rw [errorAt, ended]; rfl)
    | some e =>
      rw [errorAt, ended]
      exact .inl (endingError?_place ended)

theorem not_isPlaced_tooManyDigits : ¬IsPlaced .tooManyDigits := by
  rintro (place | same)
  · cases place
  · cases same

/-- The first malformed literal is what its error says. -/
theorem literalError?_eq_some {tokens : List Token} {e : SyntaxError} (found : literalError? tokens = some e) :
    ∃ before token after, tokens = before ++ token :: after ∧ (∀ earlier ∈ before, Token.literalFault? earlier = none) ∧
      (e.place?.isSome ∨ e = .tooManyDigits ∧ token.IsLongNumber) := by
  obtain ⟨before, token, after, split, chosen, others⟩ := List.findSome?_eq_some_iff.mp found
  obtain ⟨fault, faulty, same⟩ := Option.map_eq_some_iff.mp chosen
  refine ⟨before, token, after, split, fun earlier member => Option.map_eq_none_iff.mp (others earlier member), ?_⟩
  cases fault with
  | string =>
    cases same
    exact .inl rfl
  | tooLong =>
    cases same
    exact .inr ⟨rfl, Token.literalFault?_tooLong.mp faulty⟩

theorem literalError?_tooManyDigits {before after : List Token} {token : Token} (long : token.IsLongNumber)
    (others : ∀ earlier ∈ before, Token.literalFault? earlier = none) :
    literalError? (before ++ token :: after) = some .tooManyDigits := by
  refine List.findSome?_eq_some_iff.mpr ⟨before, token, after, rfl, ?_, fun earlier member => ?_⟩
  · rw [Token.literalFault?_tooLong.mpr long]
    rfl
  · rw [others earlier member]
    rfl

end Grammar

open Grammar in
/-- A source that is rejected has a number with too many digits, or its error tells the place. -/
theorem Program.parse_error {source : String} {e : SyntaxError} (rejected : parse source = .error e) :
    IsPlaced e ∨ e = .tooManyDigits ∧ HasLongNumber source := by
  unfold parse parseTokens at rejected
  split at rejected
  next left _ =>
    cases rejected
    exact .inl (errorAt_isPlaced _ left)
  next statements rest read =>
    split at rejected
    next found =>
      cases rejected
      rcases Option.or_eq_some_iff.mp found with ended | ⟨unended, literal⟩
      · exact .inl (.inl (endingError?_place ended))
      · obtain ⟨before, token, after, split, others, placed | ⟨rfl, long⟩⟩ := literalError?_eq_some literal
        · exact .inl (.inl placed)
        · have ending : (scanned source).ending = .finished := by
            cases ended : (scanned source).ending with
            | finished => rfl
            | _ =>
              unfold scanned at ended
              rw [ended] at unended
              cases unended
          exact .inr ⟨rfl, ending, ⟨statements, program_derived read⟩, before, token, after, split, long, others⟩
    next => cases rejected

open Grammar in
/-- A source is rejected for too many digits exactly if it has a number with too many. -/
theorem Program.parse_tooManyDigits {source : String} :
    parse source = .error .tooManyDigits ↔ HasLongNumber source := by
  constructor
  · intro rejected
    exact ((parse_error rejected).resolve_left not_isPlaced_tooManyDigits).2
  · rintro ⟨ended, ⟨program, derived⟩, before, token, after, split, long, others⟩
    have read := program_iff.mpr derived
    unfold scanned at read ended split
    rw [parse, parseTokens, read]
    simp only [ended, endingError?, split, literalError?_tooManyDigits long others, Option.none_or]

/-- Digits alone are a program, so too many of them are a number with too many. -/
theorem Program.hasLongNumber_digits {digits : List Char} (allDigits : Token.IsDigits digits)
    (long : Integer.digitLimit < digits.length) : HasLongNumber (String.ofList digits) := by
  have kept : Source.terminate digits = digits := (Source.isKept_members allDigits.2 (by decide) []).same
  let token : Token := ⟨.int, digits, ⟨.first, Source.Position.first.advance digits⟩⟩
  have one : scanned (String.ofList digits) = ⟨[token], .finished⟩ := by
    have visible : ∃ c later, digits = c :: later ∧ Text.isSeparator c = false := by
      obtain ⟨c, later, same, digit⟩ := allDigits.first
      exact ⟨c, later, same, Token.not_isSeparator digit (by decide)⟩
    have scans : Token.Scans .program .first digits [token] :=
      .single .first (Token.lexeme?_digits rfl allDigits nofun) visible
    rw [Program.scanned, String.toList_ofList, kept, Token.scan, scans.scanFrom_eq]
  have ends : (scanned (String.ofList digits)).ending = .finished := by rw [one]
  have tokens : (scanned (String.ofList digits)).tokens = [token] := by rw [one]
  have long : token.IsLongNumber := by
    refine ⟨.inl rfl, ?_⟩
    rw [Token.splitSign_digits allDigits]
    exact long
  refine ⟨ends, ?_, [], token, [], tokens, long, List.forall_mem_nil _⟩
  rw [tokens]
  exact ⟨_, .last (.expr ((Grammar.Expr.leaf rfl).weaken (Nat.zero_le _)))⟩

end PhyLang
