import PhyLang.Proofs.Source.Restart
import PhyLang.Proofs.Token.Scans

namespace PhyLang

open Source (Region IsClosed lastVisible)

/-- The number of open round brackets behind a token. -/
def Kind.bracketed (depth : Nat) : Kind → Nat
  | .mark .openRound => depth + 1
  | .mark .closeRound => depth - 1
  | _ => depth

theorem Kind.bracketed_other {kind : Kind} (noOpening : kind ≠ .mark .openRound) (noClosing : kind ≠ .mark .closeRound)
    (depth : Nat) : kind.bracketed depth = depth := by
  unfold bracketed
  split
  · exact absurd rfl noOpening
  · exact absurd rfl noClosing
  · rfl

/-- Whether no statement is open behind a token. -/
def Kind.closes : Kind → Bool
  | .mark .semicolon | .mark .openCurly | .mark .closeCurly => true
  | _ => false

namespace Token

/-- The number of open round brackets behind tokens. -/
def bracketDepth (depth : Nat) (tokens : List Token) : Nat :=
  tokens.foldl (fun depth token => token.kind.bracketed depth) depth

theorem bracketDepth_append (depth : Nat) (tokens later : List Token) :
    bracketDepth depth (tokens ++ later) = bracketDepth (bracketDepth depth tokens) later := List.foldl_append

/-- Whether a character may stand in a token that is no mark and no string. -/
def isPlain (c : Char) : Bool := isNamePart c || Text.isDigit c || c == '.' || c == '-'

/-- What the texts of tokens are made of: plain characters, what stands between quotes, or a mark. Only marks
have round and curly brackets and semicolons outside of strings. -/
inductive IsMade : Kind → List Char → Prop
  | plain {kind : Kind} {text : List Char} (noMark : ∀ m, kind ≠ .mark m) (some : text ≠ [])
      (plain : ∀ c ∈ text, isPlain c) : IsMade kind text
  | string {inside : List Char} (closed : IsInside inside) : IsMade .string ('"' :: (inside ++ ['"']))
  | mark (m : Mark) : IsMade (.mark m) m.text.toList

section Plain

variable {c : Char}

theorem isPlain_digit (digit : Text.isDigit c) : isPlain c := by simp [isPlain, digit]

theorem isPlain_part (part : isNamePart c) : isPlain c := by simp [isPlain, part]

theorem isPlain_int {input : List Char} : ∀ c ∈ intLexeme input, isPlain c :=
  fun c member => isPlain_digit (List.all_eq_true.mp List.all_takeWhile c member)

theorem isPlain_real {input : List Char} : ∀ c ∈ realLexeme input, isPlain c := by
  unfold realLexeme
  simp only
  split
  · exact List.forall_mem_nil _
  · exact List.forall_mem_nil _
  · intro c member
    rcases List.mem_append.mp member with whole | point
    · exact isPlain_int c whole
    · rcases List.mem_cons.mp point with rfl | places
      · decide
      · exact isPlain_int c places
  · exact List.forall_mem_nil _

theorem isPlain_bound {input : List Char} : ∀ c ∈ boundLexeme input, isPlain c := by
  unfold boundLexeme
  split
  · split
    · exact List.forall_mem_nil _
    · exact List.forall_mem_cons.mpr ⟨by decide, isPlain_int⟩
  · exact isPlain_int

/-- A digit of any script is visible. -/
theorem not_isBlank_digit (digit : Text.isDigit c) : Text.isBlank c = false := by
  have visible : ∀ origin ∈ Text.digitZeros, ∀ n < 10, Text.isBlank (Char.ofNat (origin + n)) = false := by
    decide +kernel
  have ascii : ∀ n < 10, Text.isBlank (Char.ofNat (0x30 + n)) = false := by decide
  obtain ⟨value, found⟩ := Option.isSome_iff_exists.mp digit
  unfold Text.digitValue? at found
  split at found
  · split at found
    next range =>
      have lower : 0x30 ≤ c.toNat := range.1
      have upper : c.toNat ≤ 0x39 := range.2
      have here := ascii (c.toNat - 0x30) (by omega)
      rwa [Nat.add_sub_cancel' lower, Char.ofNat_toNat] at here
    next => cases found
  · obtain ⟨origin, atOrigin, -⟩ := Option.map_eq_some_iff.mp found
    have range := List.find?_some atOrigin
    simp only [Bool.and_eq_true, decide_eq_true_eq] at range
    have here := visible origin (List.mem_of_find?_eq_some atOrigin) (c.toNat - origin) (by omega)
    rwa [Nat.add_sub_cancel' range.1, Char.ofNat_toNat] at here

theorem toNat_lt_of_isNamePart (part : isNamePart c) : c.toNat < 128 := by
  have ranges : ((decide (65 ≤ c.val ∧ c.val ≤ 90) || decide (97 ≤ c.val) && decide (c.val ≤ 122)) ||
      decide (48 ≤ c.val) && decide (c.val ≤ 57) || c == '_') = true := part
  simp only [Bool.or_eq_true, Bool.and_eq_true, decide_eq_true_eq, beq_iff_eq, UInt32.le_iff_toNat_le] at ranges
  rcases ranges with ((⟨-, upper⟩ | ⟨-, lower⟩) | ⟨-, digit⟩) | rfl
  · exact upper.trans_lt (by decide)
  · exact lower.trans_lt (by decide)
  · exact digit.trans_lt (by decide)
  · decide

theorem not_isBlank_plain (plain : isPlain c) : Text.isBlank c = false := by
  simp only [isPlain, Bool.or_eq_true, beq_iff_eq] at plain
  rcases plain with ((part | digit) | rfl) | rfl
  · have visible : ∀ n < 128, isNamePart (Char.ofNat n) → Text.isBlank (Char.ofNat n) = false := by
      decide +kernel
    have here := visible c.toNat (toNat_lt_of_isNamePart part)
    rw [Char.ofNat_toNat] at here
    exact here part
  · exact not_isBlank_digit digit
  · decide
  · decide

/-- Quotes, brackets and semicolons are not plain. -/
theorem isPlain_ne (plain : isPlain c) : ∀ d ∈ ['"', '(', ')', ';', '\x7b', '\x7d'], c ≠ d := by
  have none : ['"', '(', ')', ';', '\x7b', '\x7d'].all (fun d => !isPlain d) := by decide
  rintro d member rfl
  have other := List.all_eq_true.mp none c member
  rw [plain] at other
  cases other

end Plain

variable {accepts : Kind → Bool} {input text : List Char} {kind : Kind}

theorem nameKind_noMark (accepts : Kind → Bool) (name : List Char) (m : Mark) : nameKind accepts name ≠ .mark m := by
  unfold nameKind
  split
  · nofun
  · nofun

theorem lexeme?_isMade (found : lexeme? accepts input = some (kind, text)) : IsMade kind text := by
  cases lexeme?_isLexeme found with
  | real some => exact .plain nofun some isPlain_real
  | name some =>
    have parts := (nameLexeme_isIdentifier some).parts
    rw [String.toList_ofList] at parts
    exact .plain (nameKind_noMark accepts _) some fun c member => isPlain_part (parts c member)
  | string some =>
    obtain ⟨inside, closed, same⟩ := stringLexeme_closed some
    rw [same]
    exact .string closed
  | bound some => exact .plain nofun some isPlain_bound
  | int some => exact .plain nofun some isPlain_int
  | fixed member =>
    rcases List.mem_append.mp member with word | mark
    · obtain ⟨w, -, rfl⟩ := List.mem_map.mp word
      have some : w.text.toList ≠ [] := by cases w <;> decide
      exact .plain nofun some fun c member => isPlain_part ((word_isIdentifier w).parts c member)
    · obtain ⟨m, -, rfl⟩ := List.mem_map.mp mark
      exact .mark m

/-- A text of code without quotes and round brackets opens and closes none. -/
theorem depthPast_other (others : ∀ c ∈ text, c ≠ '"' ∧ c ≠ '(' ∧ c ≠ ')') (depth : Nat) :
    Region.depthPast .code depth text = depth := by
  induction text with
  | nil => rfl
  | cons c text ih =>
    obtain ⟨⟨noQuote, noOpening, noClosing⟩, later⟩ := List.forall_mem_cons.mp others
    rw [Region.depthPast, Region.next_none noQuote, Region.bracket, if_pos rfl, if_neg noOpening, if_neg noClosing,
      ih later]

/-- Brackets in a string do not count. -/
theorem depthPast_inside {inside : List Char} (closed : IsInside inside) (depth : Nat) :
    Region.depthPast .string depth inside = depth := by
  induction closed with
  | empty => rfl
  | plain noQuote noBackslash _ _ ih =>
    rw [Region.depthPast, Region.next, if_neg noBackslash, if_neg noQuote]
    exact ih
  | escaped _ _ ih => exact ih

/-- The brackets that a token opens or closes. -/
theorem IsMade.depthPast (made : IsMade kind text) (depth : Nat) :
    Region.depthPast .code depth text = kind.bracketed depth := by
  cases made with
  | plain noMark _ plain =>
    rw [Kind.bracketed_other (noMark _) (noMark _)]
    refine depthPast_other (fun c member => ?_) depth
    have others := isPlain_ne (plain c member)
    exact ⟨others _ (by decide), others _ (by decide), others _ (by decide)⟩
  | @string inside closed =>
    have opened : Region.depthPast .code depth ('"' :: (inside ++ ['"'])) =
      Region.depthPast .string depth (inside ++ ['"']) := rfl
    rw [opened, Region.depthPast_append, depthPast_inside closed, Source.past_inside_whole closed]
    rfl
  | mark m => cases m <;> rfl

/-- The last character of a token is visible, and ends a statement or a block only if the token does. -/
theorem IsMade.lastVisible (made : IsMade kind text) :
    ∃ c, Source.lastVisible text = some c ∧ (c ∈ [';', '\x7b', '\x7d'] → kind.closes) := by
  cases made with
  | plain _ some plain =>
    obtain ⟨before, c, rfl⟩ := (List.eq_nil_or_concat text).resolve_left some
    have here := plain c (by simp)
    refine ⟨c, ?_, fun closes => ?_⟩
    · rw [List.concat_eq_append, Source.lastVisible_append, Source.lastVisible_singleton, not_isBlank_plain here]
      rfl
    · have others := isPlain_ne here
      exact absurd rfl (others c (by simp at closes ⊢; tauto))
  | @string inside _ =>
    refine ⟨'"', ?_, fun closes => absurd closes (by decide)⟩
    rw [← List.cons_append, Source.lastVisible_append]
    rfl
  | mark m => cases m <;> exact ⟨_, rfl, by decide⟩

section Scans

variable {mode : Mode} {place : Source.Position}

theorem isSeparator_ne {c : Char} (separator : Text.isSeparator c) : c ≠ '"' ∧ c ≠ '(' ∧ c ≠ ')' := by
  refine ⟨?_, ?_, ?_⟩ <;> rintro rfl <;> exact absurd separator (by decide)

theorem lastVisible_blanks {blanks : List Char} (separators : ∀ c ∈ blanks, Text.isSeparator c) :
    lastVisible blanks = none := by
  refine List.find?_eq_none.mpr fun c member => ?_
  have separator := separators c (List.mem_reverse.mp member)
  simp only [Text.isSeparator, Bool.or_eq_true, beq_iff_eq] at separator
  rcases separator with (((rfl | rfl) | rfl) | rfl) | rfl <;> decide

/-- What scanning to the end of a text tells about its code: no string is left open, the brackets are those of its
tokens, and a statement is left open if the last token leaves one open. -/
structure Tells (tokens : List Token) (input : List Char) : Prop where
  code : Region.past .code input = .code
  depth : ∀ depth, Region.depthPast .code depth input = bracketDepth depth tokens
  blank : tokens = [] → lastVisible input = none
  closed : IsClosed (lastVisible input) → ∀ token ∈ tokens.getLast?, token.kind.closes

theorem Tells.blanks {blanks : List Char} (separators : ∀ c ∈ blanks, Text.isSeparator c) : Tells [] blanks where
  code := Region.past_code fun c member => (isSeparator_ne (separators c member)).1
  depth := depthPast_other fun c member => isSeparator_ne (separators c member)
  blank _ := lastVisible_blanks separators
  closed _ := nofun

theorem Tells.cons {blanks behind : List Char} {token : Token} {later : List Token}
    (separators : ∀ c ∈ blanks, Text.isSeparator c) (made : IsMade token.kind token.text)
    (code : Region.past .code token.text = .code) (tells : Tells later behind) :
    Tells (token :: later) (blanks ++ (token.text ++ behind)) where
  code := by rw [Region.past_append, (Tells.blanks separators).code, Region.past_append, code, tells.code]
  depth depth := by
    rw [Region.depthPast_append, (Tells.blanks separators).code, (Tells.blanks separators).depth,
      Region.depthPast_append, code, made.depthPast, tells.depth]
    rfl
  blank := nofun
  closed closed last ends := by
    rw [Source.lastVisible_append, Source.lastVisible_append] at closed
    cases later with
    | nil =>
      obtain ⟨c, visible, closes⟩ := made.lastVisible
      cases ends
      rw [tells.blank rfl, Option.none_or, visible] at closed
      exact closes (closed c rfl)
    | cons next later =>
      refine tells.closed ?_ last ends
      cases visible : lastVisible behind with
      | none => nofun
      | some c =>
        rw [visible] at closed
        exact closed

theorem Scans.tells {tokens : List Token} (scans : Scans mode place input tokens) : Tells tokens input := by
  induction scans with
  | blanks separators => exact .blanks separators
  | @token _ place blanks text _ kind _ separators found _ _ ih =>
    let token : Token := ⟨kind, text, ⟨place.advance blanks, (place.advance blanks).advance text⟩⟩
    have made : IsMade token.kind token.text := lexeme?_isMade found
    exact .cons separators made (lexeme?_isLettered found).past ih

end Scans

end Token

end PhyLang
