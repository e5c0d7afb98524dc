import PhyLang.Proofs.Source.Unmoved

namespace PhyLang.Source

namespace Region

/-- The region behind a character. A slash in code begins a comment if another one follows. -/
def next (r : Region) (c : Char) (following : Option Char) : Region :=
  match r with
  | .code => if c = '/' ∧ following = some '/' then .comment else if c = '"' then .string else .code
  | .string => if c = '\\' then .escape else if c = '"' then .code else .string
  | .escape => .string
  | .comment => if c = '\n' then .code else .comment

/-- The region behind the beginning of a text, where another text follows it. -/
def behind (r : Region) : (before rest : List Char) → Region
  | [], _ => r
  | c :: before, rest => (r.next c (before ++ rest).head?).behind before rest

/-- The region behind a text in which no comment begins. -/
def past (r : Region) (text : List Char) : Region := text.foldl (fun r c => r.next c none) r

/-- The region as it is left when comments are removed. -/
def uncommented : Region → Region
  | .comment => .code
  | r => r

theorem uncommented_eq {r : Region} (other : r ≠ .comment) : r.uncommented = r := by
  cases r <;> first | rfl | exact absurd rfl other

theorem next_ne_comment {r : Region} (other : r ≠ .comment) (c : Char) : r.next c none ≠ .comment := by
  unfold next
  split
  · rw [if_neg (by simp)]
    split <;> decide
  · split
    · decide
    · split <;> decide
  · decide
  · exact absurd rfl other

theorem behind_append (r : Region) (before more rest : List Char) :
    r.behind (before ++ more) rest = (r.behind before (more ++ rest)).behind more rest := by
  induction before generalizing r with
  | nil => rfl
  | cons c before ih => rw [List.cons_append, behind, ih, behind, List.append_assoc]

theorem past_append (r : Region) (text more : List Char) : r.past (text ++ more) = (r.past text).past more :=
  List.foldl_append

theorem past_cons (r : Region) (c : Char) (text : List Char) : r.past (c :: text) = (r.next c none).past text := rfl

theorem next_none {c : Char} (noQuote : c ≠ '"') : code.next c none = .code := by
  rw [next, if_neg (by simp), if_neg noQuote]

/-- A text without quotes is code as a whole. -/
theorem past_code {text : List Char} (noQuote : ∀ c ∈ text, c ≠ '"') : code.past text = .code := by
  induction text with
  | nil => rfl
  | cons c text ih =>
    obtain ⟨first, later⟩ := List.forall_mem_cons.mp noQuote
    rw [past_cons, next_none first, ih later]

end Region

section Strings

open Token (IsInside)

/-- Inside of a string no place is code. -/
theorem past_inside {inside before rest : List Char} (closed : IsInside inside) (split : inside = before ++ rest) :
    Region.past .string before ≠ .code := by
  induction closed generalizing before with
  | empty =>
    obtain ⟨rfl, -⟩ := List.append_eq_nil_iff.mp split.symm
    decide
  | @plain c inside noQuote noBackslash _ _ ih =>
    cases before with
    | nil => decide
    | cons d before =>
      cases split
      have still : Region.next .string c none = .string := by
        rw [Region.next, if_neg noBackslash, if_neg noQuote]
      rw [Region.past_cons, still]
      exact ih rfl
  | @escaped c inside _ _ ih =>
    match before, split with
    | [], _ => decide
    | [_], split =>
      cases split
      decide
    | _ :: _ :: before, split =>
      simp only [List.cons_append, List.cons.injEq] at split
      obtain ⟨rfl, -, later⟩ := split
      have inner : Region.past .string before ≠ .code := ih later
      exact inner

/-- Behind the inside of a string the string goes on. -/
theorem past_inside_whole {inside : List Char} (closed : IsInside inside) :
    Region.past .string inside = .string := by
  induction closed with
  | empty => rfl
  | plain noQuote noBackslash _ _ ih => rwa [Region.past_cons, Region.next, if_neg noBackslash, if_neg noQuote]
  | escaped _ _ ih => exact ih

end Strings

/-- Termination passes from the start of a text to the place behind some of it, and keeps a text for what it
has passed: of the same regions apart from comments, at the same place, and with the same last character. -/
structure Scan.Passes (s : Scan) (before rest kept : List Char) (after : Scan) : Prop where
  same : terminateFrom s (before ++ rest) = kept ++ terminateFrom after rest
  region : after.region = s.region.behind before rest
  uncommented : s.region.uncommented.past kept = after.region.uncommented
  aligned : ∀ {p q : Position}, s.Aligns p q → after.Aligns (p.advance kept) (q.advance before)
  last : after.region ≠ .comment → kept.getLast? = before.getLast?

namespace Scan

variable {s : Scan} {c : Char} {rest : List Char}

theorem region_string_next (inString : s.region = .string ∨ s.region = .escape) (following : Option Char) :
    (s.string c).region = s.region.next c following := by
  unfold string
  rcases inString with region | region
  · rw [region]
    by_cases backslash : c = '\\'
    · subst backslash
      rfl
    · by_cases quote : c = '"'
      · subst quote
        rfl
      · simp only [Region.next, if_neg backslash, if_neg quote]
        exact (region_keep s c).trans region
  · rw [region]
    rfl

theorem region_code_next (inCode : s.region = .code) (noComment : ¬(c = '/' ∧ rest.head? = some '/')) :
    (s.code c).region = s.region.next c rest.head? := by
  rw [inCode, Region.next, if_neg noComment]
  split
  · subst c
    rfl
  · exact region_code inCode ‹_›

/-- A character outside of comments that is kept, and begins none, is passed. -/
theorem Passes.kept {after : Scan} (here : s.region ≠ .comment)
    (same : terminateFrom s (c :: rest) = c :: terminateFrom after rest)
    (region : after.region = s.region.next c rest.head?)
    (begins : s.region.next c rest.head? = s.region.next c none) : s.Passes [c] rest [c] after where
  same := same
  region := region
  uncommented := by
    rw [begins] at region
    rw [Region.uncommented_eq here, region, Region.uncommented_eq (Region.next_ne_comment here c)]
    rfl
  aligned aligned := aligned.step here c
  last _ := rfl

/-- A line end outside of strings is passed, with a semicolon or without one. -/
theorem Passes.lineEnd (outside : s.region = .code ∨ s.region = .comment) {kept : List Char}
    (same : terminateFrom s ('\n' :: rest) = kept ++ terminateFrom s.lineEnd rest)
    (closed : kept = ['\n'] ∨ kept = [';', '\n']) : s.Passes ['\n'] rest kept s.lineEnd where
  same := same
  region := by rcases outside with region | region <;> rw [region] <;> rfl
  uncommented := by
    have code : s.region.uncommented = .code := by rcases outside with region | region <;> rw [region] <;> rfl
    rw [code]
    rcases closed with rfl | rfl <;> rfl
  aligned aligned := by
    rcases closed with rfl | rfl
    · exact aligned.lineEnd
    · exact aligned.lineEnd
  last _ := by rcases closed with rfl | rfl <;> rfl

/-- A character of a comment, or one that begins it, is passed and not kept. -/
theorem Passes.comment (inLine : c ≠ '\n')
    (comment : s.region = .comment ∨ s.region = .code ∧ c = '/' ∧ rest.head? = some '/') :
    s.Passes [c] rest [] { s with region := .comment } where
  same := by
    rw [List.singleton_append, terminateFrom]
    rcases comment with region | ⟨region, begins⟩
    · rw [region]
      simp only [if_neg inLine, true_or, if_true]
      rfl
    · rw [region]
      simp only [if_neg inLine, if_pos (Or.inr begins)]
      rfl
  region := by
    rw [Region.behind, Region.behind, List.nil_append]
    rcases comment with region | ⟨region, begins⟩
    · rw [region, Region.next, if_neg inLine]
    · rw [region, Region.next, if_pos begins]
  uncommented := by rcases comment with region | ⟨region, -⟩ <;> rw [region] <;> rfl
  aligned {p q} aligned := by
    refine ⟨?_, fun other => absurd rfl other⟩
    have next : q.next c = ⟨q.line, q.column + 1⟩ := if_neg inLine
    change p.line = (q.next c).line
    rw [next]
    exact aligned.line
  last other := absurd rfl other

/-- Every character is passed. -/
theorem passes_char (s : Scan) (c : Char) (rest : List Char) : ∃ kept after, s.Passes [c] rest kept after := by
  by_cases inString : s.region = .string ∨ s.region = .escape
  · have here : s.region ≠ .comment := by rcases inString with region | region <;> simp [region]
    have begins : s.region.next c rest.head? = s.region.next c none := by
      rcases inString with region | region <;> rw [region] <;> rfl
    exact ⟨_, _, .kept here (terminateFrom_string c rest inString) (region_string_next inString _) begins⟩
  · have outside : s.region = .code ∨ s.region = .comment := by
      cases region : s.region <;> simp [region] at inString ⊢
    by_cases lineEnd : c = '\n'
    · subst lineEnd
      by_cases isOpen : s.isOpen
      · refine ⟨_, _, .lineEnd outside ?_ (.inr rfl)⟩
        rw [terminateFrom]
        rcases outside with region | region <;> simp [region, isOpen]
      · refine ⟨_, _, .lineEnd outside ?_ (.inl rfl)⟩
        rw [terminateFrom]
        rcases outside with region | region <;> simp [region, isOpen]
    · by_cases comment : s.region = .comment ∨ s.region = .code ∧ c = '/' ∧ rest.head? = some '/'
      · exact ⟨_, _, .comment lineEnd comment⟩
      · obtain ⟨here, noComment⟩ := not_or.mp comment
        have code := outside.resolve_right here
        have begins : ¬(c = '/' ∧ rest.head? = some '/') := fun slashes => noComment ⟨code, slashes⟩
        refine ⟨_, _, .kept here (terminateFrom_code code lineEnd fun slash next => begins ⟨slash, next⟩)
          (region_code_next code begins) ?_⟩
        simp [code, Region.next, begins]

/-- Every beginning of a text is passed. -/
theorem passes (s : Scan) (before rest : List Char) : ∃ kept after, s.Passes before rest kept after := by
  induction before using List.reverseRecOn generalizing rest with
  | nil => exact ⟨[], s, rfl, rfl, rfl, fun aligned => aligned, fun _ => rfl⟩
  | append_singleton before c ih =>
    obtain ⟨kept, middle, passed⟩ := ih (c :: rest)
    obtain ⟨more, after, char⟩ := passes_char middle c rest
    refine ⟨kept ++ more, after, ?_, ?_, ?_, fun aligned => ?_, fun outside => ?_⟩
    · calc terminateFrom s (before ++ [c] ++ rest)
        _ = terminateFrom s (before ++ c :: rest) := by rw [List.append_assoc, List.singleton_append]
        _ = kept ++ terminateFrom middle ([c] ++ rest) := passed.same
        _ = kept ++ more ++ terminateFrom after rest := by rw [char.same, List.append_assoc]
    · rw [Region.behind_append, char.region, passed.region]
      rfl
    · rw [Region.past_append, passed.uncommented, char.uncommented]
    · rw [Position.advance_append, Position.advance_append]
      exact char.aligned (passed.aligned aligned)
    · have kept := char.last outside
      rw [List.getLast?_append, kept, List.getLast?_append]
      rfl

end Scan

section Stops

variable {isMember : Char → Bool} {s : Scan} {rest : List Char}

/-- What is kept from a line end on begins with it, or with a semicolon. -/
theorem stops_lineEnd (outside : s.region = .code ∨ s.region = .comment)
    (others : isMember '\n' = false ∧ isMember ';' = false) : Text.Stops isMember (terminateFrom s ('\n' :: rest)) := by
  have kept : terminateFrom s ('\n' :: rest) =
      if s.isOpen then ';' :: '\n' :: terminateFrom s.lineEnd rest else '\n' :: terminateFrom s.lineEnd rest := by
    rw [terminateFrom]
    rcases outside with region | region <;> simp [region]
  rw [kept]
  split
  · exact .cons others.2 _
  · exact .cons others.1 _

/-- What is kept behind a comment begins with no member of a class that has no line end and no semicolon. -/
theorem stops_comment (comment : s.region = .comment) (others : isMember '\n' = false ∧ isMember ';' = false) :
    Text.Stops isMember (terminateFrom s rest) := by
  induction rest generalizing s with
  | nil => exact .nil isMember
  | cons c rest ih =>
    by_cases lineEnd : c = '\n'
    · subst lineEnd
      exact stops_lineEnd (.inr comment) others
    · have passed : s.Passes [c] rest [] { s with region := .comment } := .comment lineEnd (.inl comment)
      have dropped := passed.same
      rw [List.singleton_append, List.nil_append] at dropped
      rw [dropped]
      exact ih rfl

/-- What is kept of code begins with no member of such a class, if the code begins with none. -/
theorem stops_code (code : s.region = .code) (stops : Text.Stops isMember rest)
    (others : isMember '\n' = false ∧ isMember ';' = false) : Text.Stops isMember (terminateFrom s rest) := by
  cases rest with
  | nil => exact .nil isMember
  | cons c rest =>
    by_cases lineEnd : c = '\n'
    · subst lineEnd
      exact stops_lineEnd (.inl code) others
    · by_cases comment : c = '/' ∧ rest.head? = some '/'
      · have dropped := (Scan.Passes.comment lineEnd (.inr ⟨code, comment⟩)).same
        rw [List.singleton_append, List.nil_append] at dropped
        rw [dropped]
        exact stops_comment rfl others
      · rw [terminateFrom_code code lineEnd fun slash next => comment ⟨slash, next⟩]
        exact .cons (stops c rfl) _

end Stops

end PhyLang.Source
