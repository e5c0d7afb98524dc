import PhyLang.Proofs.Source.Regions

namespace PhyLang.Source

namespace Region

/-- The number of open round brackets behind a character, of which none counts outside of code. -/
def bracket (r : Region) (depth : Nat) (c : Char) : Nat :=
  if r = .code then if c = '(' then depth + 1 else if c = ')' then depth - 1 else depth else depth

/-- The number of open round brackets behind the beginning of a text, where another text follows it. -/
def depthBehind (r : Region) (depth : Nat) : (before rest : List Char) → Nat
  | [], _ => depth
  | c :: before, rest => (r.next c (before ++ rest).head?).depthBehind (r.bracket depth c) before rest

/-- The number of open round brackets behind a text in which no comment begins. -/
def depthPast (r : Region) (depth : Nat) : List Char → Nat
  | [] => depth
  | c :: text => (r.next c none).depthPast (r.bracket depth c) text

theorem depthPast_append (r : Region) (depth : Nat) (text more : List Char) :
    r.depthPast depth (text ++ more) = (r.past text).depthPast (r.depthPast depth text) more := by
  induction text generalizing r depth with
  | nil => rfl
  | cons c text ih => exact ih _ _

/-- One more open bracket before a text leaves at most one more behind it. -/
theorem depthPast_le {r : Region} {depth other : Nat} (le : depth ≤ other + 1) (text : List Char) :
    r.depthPast depth text ≤ r.depthPast other text + 1 := by
  induction text generalizing r depth other with
  | nil => exact le
  | cons c text ih =>
    refine ih ?_
    unfold bracket
    split_ifs <;> omega

/-- In a text that leaves all open brackets as they are, a bracket that closes one finds one open. -/
theorem depthPast_ne_zero {before rest : List Char} (inCode : code.past before = .code)
    (balanced : ∀ depth, code.depthPast depth (before ++ ')' :: rest) = depth) : code.depthPast 0 before ≠ 0 := by
  intro none
  have behind (depth : Nat) : code.depthPast (code.depthPast depth before - 1) rest = depth := by
    have whole := balanced depth
    rw [depthPast_append, inCode] at whole
    exact whole
  have atMost : code.depthPast 1 before ≤ code.depthPast 0 before + 1 := depthPast_le le_rfl before
  -- With an open bracket before the text or without, none is open behind the one that closes.
  have same : code.depthPast 1 before - 1 = code.depthPast 0 before - 1 := by omega
  have zero := behind 0
  rw [← same, behind 1] at zero
  exact Nat.one_ne_zero zero

end Region

/-- The last visible character of a text. -/
def lastVisible (text : List Char) : Option Char := text.reverse.find? fun c => !Text.isBlank c

theorem lastVisible_append (text more : List Char) :
    lastVisible (text ++ more) = (lastVisible more).or (lastVisible text) := by
  unfold lastVisible
  rw [List.reverse_append, List.find?_append]

theorem lastVisible_singleton (c : Char) : lastVisible [c] = if Text.isBlank c then none else some c := by
  cases blank : Text.isBlank c <;> simp [lastVisible, blank]

namespace Scan

/-- The scan behind a character, with the character after it. -/
def step (s : Scan) (c : Char) (following : Option Char) : Scan :=
  match s.region with
  | .string | .escape => s.string c
  | region =>
    if c = '\n' then s.lineEnd
    else if region = .comment ∨ (c = '/' ∧ following = some '/') then { s with region := .comment }
    else s.code c

/-- What is put out for a character. -/
def emitted (s : Scan) (c : Char) (following : Option Char) : List Char :=
  match s.region with
  | .string | .escape => [c]
  | region =>
    if c = '\n' then if s.isOpen then [';', '\n'] else ['\n']
    else if region = .comment ∨ (c = '/' ∧ following = some '/') then []
    else [c]

/-- The scan behind the beginning of a text, where another text follows it. -/
def behind (s : Scan) : (before rest : List Char) → Scan
  | [], _ => s
  | c :: before, rest => (s.step c (before ++ rest).head?).behind before rest

/-- What is put out for the beginning of a text, where another text follows it. -/
def kept (s : Scan) : (before rest : List Char) → List Char
  | [], _ => []
  | c :: before, rest => s.emitted c (before ++ rest).head? ++ (s.step c (before ++ rest).head?).kept before rest

variable {s : Scan} {c : Char} {following : Option Char} {before rest : List Char}

theorem terminateFrom_cons (s : Scan) (c : Char) (rest : List Char) :
    terminateFrom s (c :: rest) = s.emitted c rest.head? ++ terminateFrom (s.step c rest.head?) rest := by
  rw [terminateFrom]
  unfold emitted step
  cases s.region with
  | string => rfl
  | escape => rfl
  | code =>
    by_cases lineEnd : c = '\n'
    · simp only [if_pos lineEnd]
      split <;> rfl
    · simp only [if_neg lineEnd]
      split <;> rfl
  | comment =>
    by_cases lineEnd : c = '\n'
    · simp only [if_pos lineEnd]
      split <;> rfl
    · simp only [if_neg lineEnd, true_or, if_true]
      rfl

/-- Termination goes on behind the beginning of a text. -/
theorem terminateFrom_append (s : Scan) (before rest : List Char) :
    terminateFrom s (before ++ rest) = s.kept before rest ++ terminateFrom (s.behind before rest) rest := by
  induction before generalizing s with
  | nil => rfl
  | cons c before ih => rw [List.cons_append, terminateFrom_cons, ih, kept, behind, List.append_assoc]

theorem kept_nil (s : Scan) (text : List Char) : s.kept text [] = terminateFrom s text := by
  have whole := terminateFrom_append s text []
  rw [List.append_nil, terminateFrom, List.append_nil] at whole
  exact whole.symm

theorem behind_append (s : Scan) (before more rest : List Char) :
    s.behind (before ++ more) rest = (s.behind before (more ++ rest)).behind more rest := by
  induction before generalizing s with
  | nil => rfl
  | cons c before ih => rw [List.cons_append, behind, ih, behind, List.append_assoc]

theorem kept_append (s : Scan) (before more rest : List Char) :
    s.kept (before ++ more) rest = s.kept before (more ++ rest) ++ (s.behind before (more ++ rest)).kept more rest := by
  induction before generalizing s with
  | nil => rfl
  | cons c before ih => rw [List.cons_append, kept, ih, kept, behind, List.append_assoc, List.append_assoc]

/-- Of the text behind, a step only asks whether it begins with a slash. -/
theorem step_congr {other : Option Char} (same : following = some '/' ↔ other = some '/') :
    s.step c following = s.step c other ∧ s.emitted c following = s.emitted c other := by
  unfold step emitted
  simp only [same, and_self]

theorem behind_congr {other : List Char} (same : rest.head? = some '/' ↔ other.head? = some '/') :
    s.behind before rest = s.behind before other ∧ s.kept before rest = s.kept before other := by
  induction before generalizing s with
  | nil => exact ⟨rfl, rfl⟩
  | cons c before ih =>
    have ahead : (before ++ rest).head? = some '/' ↔ (before ++ other).head? = some '/' := by
      cases before with
      | nil => exact same
      | cons => rfl
    obtain ⟨stepped, put⟩ := step_congr (s := s) (c := c) ahead
    obtain ⟨later, laterPut⟩ := ih (s := s.step c (before ++ other).head?)
    simp only [behind, kept, stepped, put, later, laterPut, and_self]

section Steps

theorem keep_eq (s : Scan) (c : Char) : s.keep c = { s with last := (lastVisible [c]).or s.last } := by
  rw [lastVisible_singleton, keep]
  split <;> rfl

theorem string_eq (inString : s.region = .string ∨ s.region = .escape) :
    s.string c = { s with region := s.region.next c none, last := (lastVisible [c]).or s.last } := by
  have region := region_string_next (c := c) inString none
  have others : s.string c = { s.keep c with region := (s.string c).region } := by
    unfold string
    split <;> rfl
  rw [others, region, keep_eq]

theorem code_eq (inCode : s.region = .code) :
    s.code c = ⟨Region.next .code c none, Region.bracket .code s.depth c, (lastVisible [c]).or s.last⟩ := by
  unfold code
  rw [keep_eq, inCode]
  split
  · rfl
  · rfl
  · rfl
  next noQuote opens closes =>
    rw [Region.next_none noQuote, Region.bracket, if_pos rfl, if_neg opens, if_neg closes]

/-- A step behind which a character is kept: the scan is told by the character. -/
structure Keeps (s : Scan) (c : Char) (following : Option Char) : Prop where
  emitted : s.emitted c following = [c]
  region : s.region.next c following = s.region.uncommented.next c none
  depth : s.region.uncommented.bracket s.depth c = s.region.bracket s.depth c
  after : s.step c following =
    ⟨s.region.uncommented.next c none, s.region.bracket s.depth c, (lastVisible [c]).or s.last⟩

/-- A step behind which nothing is put out, because the character begins a comment or stands in one. -/
structure Drops (s : Scan) (c : Char) (following : Option Char) : Prop where
  emitted : s.emitted c following = []
  region : s.region.next c following = .comment
  outside : s.region.uncommented = .code
  depth : s.region.bracket s.depth c = s.depth
  after : s.step c following = { s with region := .comment }

/-- A step behind which a line end closes a statement. -/
structure Closes (s : Scan) (c : Char) (following : Option Char) : Prop where
  lineEnd : c = '\n'
  outside : s.region.uncommented = .code
  isOpen : s.isOpen
  emitted : s.emitted c following = [';', '\n']
  after : s.step c following = ⟨.code, s.depth, some ';'⟩

theorem keeps_of_string (inString : s.region = .string ∨ s.region = .escape) : s.Keeps c following := by
  have same : s.step c following = s.string c := by rcases inString with region | region <;> rw [step, region]
  have depth : s.region.bracket s.depth c = s.depth := by rcases inString with region | region <;> rw [region] <;> rfl
  have outside : s.region.uncommented = s.region := by rcases inString with region | region <;> rw [region] <;> rfl
  refine ⟨?_, ?_, by rw [outside], ?_⟩
  · rcases inString with region | region <;> rw [emitted, region]
  · rcases inString with region | region <;> rw [region] <;> rfl
  · rw [same, string_eq inString, outside, depth]

theorem keeps_of_code (region : s.region = .code) (inLine : c ≠ '\n') (begins : ¬(c = '/' ∧ following = some '/')) :
    s.Keeps c following := by
  refine ⟨?_, ?_, ?_, ?_⟩
  · simp [emitted, region, inLine, begins]
  · simp [region, Region.next, begins, Region.uncommented]
  · rw [region]
    rfl
  · have same : s.step c following = s.code c := by simp [step, region, inLine, begins]
    rw [same, code_eq region, region]
    rfl

section Outside

variable (outside : s.region = .code ∨ s.region = .comment)

include outside

theorem uncommented_outside : s.region.uncommented = .code := by
  rcases outside with region | region <;> rw [region] <;> rfl

theorem lineEnd_cases : s.Keeps '\n' following ∨ s.Closes '\n' following := by
  have after : s.step '\n' following = s.lineEnd := by rcases outside with region | region <;> simp [step, region]
  have put : s.emitted '\n' following = if s.isOpen then [';', '\n'] else ['\n'] := by
    rcases outside with region | region <;> simp [emitted, region]
  by_cases isOpen : s.isOpen
  · refine .inr ⟨rfl, uncommented_outside outside, isOpen, by rw [put, if_pos isOpen], ?_⟩
    rw [after, lineEnd, if_pos isOpen]
  · refine .inl ⟨by rw [put, if_neg isOpen], ?_, ?_, ?_⟩
    · rcases outside with region | region <;> rw [region] <;> rfl
    · rcases outside with region | region <;> rw [region] <;> rfl
    · rw [after, lineEnd, if_neg isOpen, uncommented_outside outside]
      rcases outside with region | region <;> rw [region] <;> rfl

theorem drops_of_comment (inLine : c ≠ '\n') (comment : s.region = .comment ∨ c = '/' ∧ following = some '/') :
    s.Drops c following := by
  refine ⟨?_, ?_, uncommented_outside outside, ?_, ?_⟩
  · rcases outside with region | region <;> simp_all [emitted]
  · rcases outside with region | region <;> simp_all [Region.next]
  · rcases outside with region | region <;> simp_all [Region.bracket]
  · rcases outside with region | region <;> simp_all [step]

end Outside

/-- A character is kept, or dropped, or a semicolon is put before it. -/
theorem step_cases (s : Scan) (c : Char) (following : Option Char) :
    s.Keeps c following ∨ s.Drops c following ∨ s.Closes c following := by
  by_cases inString : s.region = .string ∨ s.region = .escape
  · exact .inl (keeps_of_string inString)
  have outside : s.region = .code ∨ s.region = .comment := by
    cases region : s.region <;> simp [region] at inString ⊢
  by_cases lineEnd : c = '\n'
  · subst lineEnd
    rcases lineEnd_cases outside with keeps | closes
    · exact .inl keeps
    · exact .inr (.inr closes)
  by_cases comment : s.region = .comment ∨ c = '/' ∧ following = some '/'
  · exact .inr (.inl (drops_of_comment outside lineEnd comment))
  · obtain ⟨here, begins⟩ := not_or.mp comment
    exact .inl (keeps_of_code (outside.resolve_right here) lineEnd begins)

theorem region_step (s : Scan) (c : Char) (following : Option Char) :
    (s.step c following).region = s.region.next c following := by
  rcases step_cases s c following with keeps | drops | closes
  · rw [keeps.after, keeps.region]
  · rw [drops.after, drops.region]
  · obtain ⟨rfl, outside, -, -, after⟩ := closes
    rw [after]
    cases region : s.region <;> simp [region, Region.uncommented] at outside <;> rfl

theorem depth_step (s : Scan) (c : Char) (following : Option Char) :
    (s.step c following).depth = s.region.bracket s.depth c := by
  rcases step_cases s c following with keeps | drops | closes
  · rw [keeps.after]
  · rw [drops.after, drops.depth]
  · obtain ⟨rfl, -, -, -, after⟩ := closes
    rw [after]
    simp [Region.bracket]

theorem last_step (s : Scan) (c : Char) (following : Option Char) :
    (s.step c following).last = (lastVisible (s.emitted c following)).or s.last := by
  rcases step_cases s c following with keeps | drops | closes
  · rw [keeps.after, keeps.emitted]
  · rw [drops.after, drops.emitted]
    rfl
  · rw [closes.after, closes.emitted]
    rfl

theorem past_emitted (s : Scan) (c : Char) (following : Option Char) :
    s.region.uncommented.past (s.emitted c following) = (s.step c following).region.uncommented := by
  rcases step_cases s c following with keeps | drops | closes
  · rw [keeps.emitted, keeps.after, Region.past_cons]
    refine (Region.uncommented_eq (Region.next_ne_comment ?_ c)).symm
    cases s.region <;> decide
  · rw [drops.emitted, drops.after, drops.outside]
    rfl
  · rw [closes.emitted, closes.after, closes.outside]
    rfl

theorem depthPast_emitted (s : Scan) (c : Char) (following : Option Char) :
    s.region.uncommented.depthPast s.depth (s.emitted c following) = (s.step c following).depth := by
  rcases step_cases s c following with keeps | drops | closes
  · rw [keeps.emitted, keeps.after]
    exact keeps.depth
  · rw [drops.emitted, drops.after]
    rfl
  · rw [closes.emitted, closes.after, closes.outside]
    rfl

/-- What is dropped ends no line. -/
theorem Drops.inLine (drops : s.Drops c following) : c ≠ '\n' := by
  rintro rfl
  have comment := drops.region
  cases region : s.region <;> simp [region, Region.next] at comment

/-- A step leaves what is put out aligned with the source. -/
theorem aligns_step {p q : Position} (aligned : s.Aligns q p) (c : Char) (following : Option Char) :
    (s.step c following).Aligns (q.advance (s.emitted c following)) (p.next c) := by
  rcases step_cases s c following with keeps | drops | closes
  · rw [keeps.emitted]
    by_cases comment : s.region = .comment
    · -- Of a comment only the end of its line is kept.
      have lineEnd : c = '\n' := by
        by_contra inLine
        have region := keeps.region
        rw [comment, Region.next, if_neg inLine] at region
        exact Region.next_ne_comment (by decide) c region.symm
      subst lineEnd
      exact aligned.lineEnd
    · exact aligned.step comment c
  · rw [drops.emitted, drops.after]
    refine ⟨?_, fun other => absurd rfl other⟩
    rw [Position.next, if_neg drops.inLine]
    exact aligned.line
  · rw [closes.emitted, closes.lineEnd]
    exact aligned.lineEnd

/-- A step puts out as many line ends as it reads. -/
theorem count_emitted (s : Scan) (c : Char) (following : Option Char) :
    (s.emitted c following).count '\n' = [c].count '\n' := by
  rcases step_cases s c following with keeps | drops | closes
  · rw [keeps.emitted]
  · rw [drops.emitted, List.count_singleton, if_neg (by simpa using drops.inLine)]
    rfl
  · rw [closes.emitted, closes.lineEnd]
    rfl

theorem isOpen_iff (s : Scan) : s.isOpen ↔ s.depth = 0 ∧ ∃ c, s.last = some c ∧ c ∉ [';', '\x7b', '\x7d'] := by
  unfold isOpen
  cases s.last <;> simp [and_assoc]

/-- The end of a line closes a statement: outside of strings and round brackets, with something visible before it
that does not end a statement or a block. -/
def closes (s : Scan) : Prop := s.region.uncommented = .code ∧ s.isOpen

instance (s : Scan) : Decidable s.closes := inferInstanceAs (Decidable (_ ∧ _))

theorem emitted_lineEnd (s : Scan) (following : Option Char) :
    s.emitted '\n' following = (if s.closes then [';'] else []) ++ ['\n'] := by
  have regions : s.region = .string ∨ s.region = .escape ∨ s.region = .code ∨ s.region = .comment := by
    cases s.region <;> simp
  rcases regions with region | region | region | region
  · simp [emitted, closes, region, Region.uncommented]
  · simp [emitted, closes, region, Region.uncommented]
  · by_cases isOpen : s.isOpen <;> simp [emitted, closes, region, isOpen, Region.uncommented]
  · by_cases isOpen : s.isOpen <;> simp [emitted, closes, region, isOpen, Region.uncommented]

theorem step_lineEnd (s : Scan) (following : Option Char) : s.step '\n' following = s.step '\n' none := by
  unfold step
  cases s.region <;> rfl

end Steps

/-- The region behind a text is told by the text. -/
theorem region_behind (s : Scan) (before rest : List Char) :
    (s.behind before rest).region = s.region.behind before rest := by
  induction before generalizing s with
  | nil => rfl
  | cons c before ih => rw [behind, ih, region_step, Region.behind]

theorem depth_behind (s : Scan) (before rest : List Char) :
    (s.behind before rest).depth = s.region.depthBehind s.depth before rest := by
  induction before generalizing s with
  | nil => rfl
  | cons c before ih => rw [behind, ih, region_step, depth_step, Region.depthBehind]

theorem last_behind (s : Scan) (before rest : List Char) :
    (s.behind before rest).last = (lastVisible (s.kept before rest)).or s.last := by
  induction before generalizing s with
  | nil => rfl
  | cons c before ih => rw [behind, ih, last_step, kept, lastVisible_append, Option.or_assoc]

/-- But for comments, the region is told by what was put out. -/
theorem past_kept (s : Scan) (before rest : List Char) :
    s.region.uncommented.past (s.kept before rest) = (s.behind before rest).region.uncommented := by
  induction before generalizing s with
  | nil => rfl
  | cons c before ih => rw [kept, Region.past_append, past_emitted, ih, behind]

theorem depthPast_kept (s : Scan) (before rest : List Char) :
    s.region.uncommented.depthPast s.depth (s.kept before rest) = (s.behind before rest).depth := by
  induction before generalizing s with
  | nil => rfl
  | cons c before ih => rw [kept, Region.depthPast_append, past_emitted, depthPast_emitted, ih, behind]

end Scan

end PhyLang.Source
