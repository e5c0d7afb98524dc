import PhyLang.Proofs.Token.Written
import PhyLang.Source.Terminated

namespace PhyLang.Source

open Token (IsInside IsTextOf written writtenAfter)

/-- Whether a text is kept as it stands in code, with code after it. -/
def IsKept (text rest : List Char) : Prop :=
  ∀ s : Scan, s.region = .code → ∃ after : Scan, after.region = .code ∧
    terminateFrom s (text ++ rest) = text ++ terminateFrom after rest

theorem IsKept.nil (rest : List Char) : IsKept [] rest := fun s code => ⟨s, code, rfl⟩

theorem IsKept.same {text : List Char} (kept : IsKept text []) : terminate text = text := by
  obtain ⟨after, -, same⟩ := kept {} rfl
  rw [List.append_nil] at same
  rw [terminate, same, terminateFrom, List.append_nil]

theorem IsKept.append {text more rest : List Char} (kept : IsKept text (more ++ rest)) (keptLater : IsKept more rest) :
    IsKept (text ++ more) rest := by
  intro s code
  obtain ⟨middle, codeMiddle, same⟩ := kept s code
  obtain ⟨after, codeAfter, sameLater⟩ := keptLater middle codeMiddle
  refine ⟨after, codeAfter, ?_⟩
  rw [List.append_assoc, same, sameLater, List.append_assoc]

theorem terminateFrom_code {s : Scan} {c : Char} {rest : List Char} (code : s.region = .code) (noLineEnd : c ≠ '\n')
    (noComment : c = '/' → rest.head? ≠ some '/') : terminateFrom s (c :: rest) = c :: terminateFrom (s.code c) rest := by
  have outside : ¬(Region.code = .comment ∨ c = '/' ∧ rest.head? = some '/') := by
    rintro (comment | ⟨slash, next⟩)
    · cases comment
    · exact noComment slash next
  rw [terminateFrom, code]
  simp only [if_neg noLineEnd, if_neg outside]

theorem region_keep (s : Scan) (c : Char) : (s.keep c).region = s.region := by
  unfold Scan.keep
  split <;> rfl

theorem region_code {s : Scan} {c : Char} (code : s.region = .code) (noQuote : c ≠ '"') :
    (s.code c).region = .code := by
  unfold Scan.code
  split
  · exact absurd rfl noQuote
  · exact (region_keep s _).trans code
  · exact (region_keep s _).trans code
  · exact (region_keep s _).trans code

theorem isKept_char {c : Char} {rest : List Char} (noLineEnd : c ≠ '\n') (noQuote : c ≠ '"')
    (noComment : c = '/' → rest.head? ≠ some '/') : IsKept [c] rest :=
  fun _ code => ⟨_, region_code code noQuote, terminateFrom_code code noLineEnd noComment⟩

/-- A text without line ends, quotes and slashes is kept. -/
theorem isKept_plain {text : List Char} (plain : text.any (['\n', '"', '/'].contains ·) = false) (rest : List Char) :
    IsKept text rest := by
  induction text with
  | nil => exact .nil rest
  | cons c text ih =>
    obtain ⟨first, later⟩ := Bool.or_eq_false_iff.mp ((List.any_cons ..).symm.trans plain)
    have others : c ≠ '\n' ∧ c ≠ '"' ∧ c ≠ '/' := by simpa using first
    obtain ⟨noLineEnd, noQuote, noSlash⟩ := others
    have kept : IsKept [c] (text ++ rest) := isKept_char noLineEnd noQuote fun slash => absurd slash noSlash
    exact kept.append (ih later)

theorem terminateFrom_string {s : Scan} (c : Char) (rest : List Char) (inString : s.region = .string ∨ s.region = .escape) :
    terminateFrom s (c :: rest) = c :: terminateFrom (s.string c) rest := by
  rcases inString with region | region
  · rw [terminateFrom, region]
  · rw [terminateFrom, region]

theorem region_string_escape {s : Scan} (escape : s.region = .escape) (c : Char) : (s.string c).region = .string := by
  unfold Scan.string
  rw [escape]

/-- The inside of a string and the quote after it are kept, and code follows. -/
theorem terminateFrom_inside {inside : List Char} (closed : IsInside inside) (rest : List Char) :
    ∀ s : Scan, s.region = .string → ∃ after : Scan, after.region = .code ∧
      terminateFrom s (inside ++ '"' :: rest) = inside ++ '"' :: terminateFrom after rest := by
  induction closed with
  | empty =>
    intro s string
    have code : (s.string '"').region = .code := by
      unfold Scan.string
      rw [string]
      rfl
    exact ⟨_, code, terminateFrom_string _ _ (.inl string)⟩
  | @plain c inside noQuote noBackslash _ _ ih =>
    intro s string
    have still : (s.string c).region = .string := by
      unfold Scan.string
      rw [string]
      split
      · contradiction
      · exact absurd rfl noBackslash
      · exact absurd rfl noQuote
      · exact (region_keep s _).trans string
    obtain ⟨after, code, same⟩ := ih (s.string c) still
    exact ⟨after, code, by rw [List.cons_append, terminateFrom_string _ _ (.inl string), same]; rfl⟩
  | @escaped c inside _ _ ih =>
    intro s string
    have escape : (s.string '\\').region = .escape := by
      unfold Scan.string
      rw [string]
      rfl
    obtain ⟨after, code, same⟩ := ih _ (region_string_escape escape c)
    refine ⟨after, code, ?_⟩
    rw [List.cons_append, List.cons_append, terminateFrom_string _ _ (.inl string),
      terminateFrom_string _ _ (.inr escape), same]
    rfl

theorem isKept_members {isMember : Char → Bool} {text : List Char} (members : ∀ c ∈ text, isMember c)
    (others : ['\n', '"', '/'].any isMember = false) (rest : List Char) : IsKept text rest := by
  refine isKept_plain (List.any_eq_false.mpr fun c member other => ?_) rest
  exact List.any_eq_false.mp others c (List.contains_iff_mem.mp other) (members c member)

/-- The text of a token is kept, if it stands apart from what follows. -/
theorem isKept_textOf {kind : Kind} {text rest : List Char} (textOf : IsTextOf kind text)
    (apart : Token.IsApart rest) : IsKept text rest := by
  cases textOf with
  | name identifier =>
    obtain ⟨c, later, same, start, parts⟩ := identifier
    rw [String.toList_ofList] at same
    subst same
    have begins : ∀ d ∈ [c], Token.isNameStart d := by simpa using start
    exact (isKept_members begins (by decide) (later ++ rest)).append (isKept_members parts (by decide) rest)
  | int allDigits | bound allDigits => exact isKept_members allDigits.2 (by decide) rest
  | @real whole places allDigits digitPlaces =>
    have point : IsKept ['.'] (places ++ rest) := isKept_char (by decide) (by decide) (absurd · (by decide))
    exact (isKept_members allDigits.2 (by decide) _).append
      (point.append (isKept_members digitPlaces (by decide) rest))
  | @string inside closed =>
    intro s code
    obtain ⟨after, codeAfter, same⟩ := terminateFrom_inside closed rest (s.code '"') rfl
    have first : terminateFrom s ('"' :: (inside ++ '"' :: rest)) = '"' :: terminateFrom (s.code '"') _ :=
      terminateFrom_code code (by decide) (absurd · (by decide))
    rw [same] at first
    exact ⟨after, codeAfter, by simpa using first⟩
  | @negative digits allDigits =>
    have sign : IsKept ['-'] (digits ++ rest) := isKept_char (by decide) (by decide) (absurd · (by decide))
    exact sign.append (isKept_members allDigits.2 (by decide) rest)
  | word w => exact isKept_plain (by cases w <;> decide) rest
  | mark m =>
    by_cases slash : m = .slash
    · subst slash
      refine isKept_char (by decide) (by decide) fun _ next => ?_
      exact absurd (apart _ next) (by decide)
    · exact isKept_plain (by cases m <;> first | decide | exact absurd rfl slash) rest

theorem isKept_written {tokens : List Token} (texts : ∀ token ∈ tokens, IsTextOf token.kind token.text) :
    IsKept (written tokens) [] := by
  induction tokens with
  | nil => exact .nil []
  | cons token later ih =>
    have inner := ih fun other member => texts other (List.mem_cons_of_mem _ member)
    rw [Token.written_cons]
    have keptLater : IsKept (writtenAfter later) [] := by
      cases later with
      | nil => exact .nil []
      | cons next later => exact (isKept_char (by decide) (by decide) (absurd · (by decide))).append inner
    refine IsKept.append (isKept_textOf (texts token (List.mem_cons_self ..)) ?_) keptLater
    rw [List.append_nil]
    exact Token.writtenAfter_isApart later

/-- Termination changes nothing in written tokens. No comment begins between them, since no token begins with
two slashes, and each string that opens is closed by its own token. -/
theorem terminate_written {tokens : List Token} (texts : ∀ token ∈ tokens, IsTextOf token.kind token.text) :
    terminate (written tokens) = written tokens := (isKept_written texts).same

end PhyLang.Source
