import PhyLang.Proofs.Source.Lines
import PhyLang.Proofs.Source.Restart

namespace PhyLang.Source

/-- All statements of a text are terminated: no comment begins in its code, and where a line ends in code and outside
of round brackets, what is visible before it leaves no statement open. -/
structure IsTerminated (text : List Char) : Prop where
  uncommented : ∀ before rest, text = before ++ '/' :: '/' :: rest → Region.code.past before ≠ .code
  closed : ∀ before rest, text = before ++ '\n' :: rest → Region.code.past before = .code →
    Region.code.depthPast 0 before = 0 → IsClosed (lastVisible before)

theorem Region.next_eq_comment {r : Region} {c : Char} {following : Option Char} (here : r ≠ .comment)
    (begins : r.next c following = .comment) : r = .code ∧ c = '/' ∧ following = some '/' := by
  by_contra goesOn
  exact next_ne_comment here c ((next_goesOn here goesOn).symm.trans begins)

namespace Scan

variable {s : Scan} {c : Char} {following other : Option Char} {before rest text : List Char}

/-- Outside of comments a character is kept, unless it begins a comment or ends a line that is to be closed. -/
theorem keeps_iff (here : s.region ≠ .comment) :
    s.Keeps c following ↔ ¬(s.region = .code ∧ c = '/' ∧ following = some '/') ∧ ¬(c = '\n' ∧ s.closes) := by
  constructor
  · intro keeps
    constructor
    · rintro ⟨code, rfl, rfl⟩
      have begins := keeps.region
      rw [code, Region.next, if_pos ⟨rfl, rfl⟩] at begins
      exact Region.next_ne_comment (by decide) '/' begins.symm
    · rintro ⟨rfl, closes⟩
      have put := keeps.emitted
      rw [emitted_lineEnd, if_pos closes] at put
      cases put
  · rintro ⟨goesOn, noClosing⟩
    rcases step_cases s c following with keeps | drops | closes
    · exact keeps
    · exact absurd (Region.next_eq_comment here drops.region) goesOn
    · exact absurd ⟨closes.lineEnd, closes.outside, closes.isOpen⟩ noClosing

/-- The scan of what was put out, behind a source that was scanned so far. -/
def uncommented (s : Scan) : Scan := { s with region := s.region.uncommented }

theorem uncommented_eq (here : s.region ≠ .comment) : s.uncommented = s := by
  rw [uncommented, Region.uncommented_eq here]

theorem region_uncommented (s : Scan) : s.uncommented.region ≠ .comment := by
  obtain ⟨region, depth, last⟩ := s
  cases region <;> nofun

/-- A character that is kept from the source is kept again from what is put out. -/
theorem Keeps.again (keeps : s.Keeps c rest.head?) :
    s.uncommented.Keeps c (terminateFrom (s.step c rest.head?) rest).head? := by
  refine (keeps_iff s.region_uncommented).mpr ⟨?_, ?_⟩
  · rintro ⟨outside, rfl, slash⟩
    have here : s.region ≠ .comment := by
      intro comment
      have still := keeps.region
      rw [comment, Region.next, if_neg (by decide)] at still
      exact Region.next_ne_comment (by decide) '/' still.symm
    have code : s.region = .code := by rwa [uncommented_eq here] at outside
    -- Behind the slash there is no other one in the source, so none is put out either.
    have noSlash : rest.head? ≠ some '/' := fun next => ((keeps_iff here).mp keeps).1 ⟨code, rfl, next⟩
    have after : (s.step '/' rest.head?).region = .code := by
      rw [region_step, code, Region.next, if_neg fun slashes => noSlash slashes.2]
      rfl
    have stops : Text.Stops (· == '/') rest := fun d first => beq_false_of_ne (first ▸ noSlash <| congrArg some ·)
    exact absurd (stops_code after stops (by decide) '/' slash) (by decide)
  · rintro ⟨rfl, outside, isOpen⟩
    have put := keeps.emitted
    have closes : s.closes := ⟨by rwa [Region.uncommented_eq s.region_uncommented] at outside, isOpen⟩
    rw [emitted_lineEnd, if_pos closes] at put
    cases put

/-- Behind a character that is kept, no comment goes on. -/
theorem Keeps.outside (keeps : s.Keeps c following) : (s.step c following).region ≠ .comment := by
  rw [keeps.after]
  exact Region.next_ne_comment s.region_uncommented c

theorem Keeps.step_uncommented (keeps : s.Keeps c following) (again : s.uncommented.Keeps c other) :
    s.uncommented.step c other = (s.step c following).uncommented := by
  have same : s.region.uncommented.uncommented = s.region.uncommented := Region.uncommented_eq s.region_uncommented
  rw [uncommented_eq keeps.outside, again.after, keeps.after]
  simp only [uncommented, same, keeps.depth]

/-- A semicolon at the end of a line in code is kept with the line end. -/
theorem terminateFrom_closed (code : s.region = .code) (rest : List Char) :
    terminateFrom s (';' :: '\n' :: rest) = ';' :: '\n' :: terminateFrom ⟨.code, s.depth, some ';'⟩ rest := by
  have semicolon : s.Keeps ';' (some '\n') := keeps_of_code code (by decide) (by decide)
  have after : s.step ';' (some '\n') = ⟨.code, s.depth, some ';'⟩ := by
    rw [semicolon.after, code]
    rfl
  have ended : ¬(⟨.code, s.depth, some ';'⟩ : Scan).isOpen := by simp [isOpen_iff]
  have lineEnd : (⟨.code, s.depth, some ';'⟩ : Scan).Keeps '\n' rest.head? :=
    (keeps_iff (by simp)).mpr ⟨by simp, fun closes => ended closes.2.2⟩
  rw [terminateFrom_cons, List.head?_cons, semicolon.emitted, after, terminateFrom_cons, lineEnd.emitted, lineEnd.after]
  rfl

/-- What was put out is put out again. -/
theorem terminateFrom_terminateFrom (s : Scan) (source : List Char) :
    terminateFrom s.uncommented (terminateFrom s source) = terminateFrom s source := by
  induction source generalizing s with
  | nil => rfl
  | cons c rest ih =>
    have later := ih (s.step c rest.head?)
    rw [terminateFrom_cons]
    rcases step_cases s c rest.head? with keeps | drops | closes
    · have again := keeps.again
      rw [keeps.emitted, List.singleton_append, terminateFrom_cons, again.emitted, keeps.step_uncommented again, later]
      rfl
    · have same : s.uncommented = (s.step c rest.head?).uncommented := by
        rw [drops.after, uncommented, drops.outside]
        rfl
      rw [drops.emitted, List.nil_append, same, later]
    · rw [closes.after] at later
      rw [closes.emitted, closes.after, List.cons_append, List.singleton_append, terminateFrom_closed closes.outside]
      exact congrArg _ (congrArg _ later)

/-- What was put out for a text tells the scan behind it, outside of comments. -/
theorem behind_of_kept (kept : Scan.kept {} before rest = before) (here : (behind {} before rest).region ≠ .comment) :
    behind {} before rest = ⟨Region.code.past before, Region.code.depthPast 0 before, lastVisible before⟩ := by
  have region := past_kept {} before rest
  have depth := depthPast_kept {} before rest
  have last := last_behind {} before rest
  rw [kept] at region depth last
  rw [Region.uncommented_eq here] at region
  rw [Option.or_none] at last
  generalize behind {} before rest = s at region depth last
  obtain ⟨_, _, _⟩ := s
  exact congr (congr (congrArg Scan.mk region.symm) depth.symm) last

/-- Of a text that is put out as it stands, the first character is kept, and what is behind it is put out as it
stands. -/
theorem keeps_first (here : s.region ≠ .comment) (same : terminateFrom s (c :: rest) = c :: rest) :
    s.Keeps c rest.head? ∧ (s.step c rest.head?).region ≠ .comment ∧
      terminateFrom (s.step c rest.head?) rest = rest := by
  rw [terminateFrom_cons] at same
  rcases step_cases s c rest.head? with keeps | drops | closes
  · rw [keeps.emitted] at same
    exact ⟨keeps, keeps.outside, (List.cons.inj same).2⟩
  · -- What stands behind a comment that was dropped begins with no slash.
    obtain ⟨-, rfl, -⟩ := Region.next_eq_comment here drops.region
    have comment : (s.step '/' rest.head?).region = .comment := by rw [drops.after]
    have stops : Text.Stops (· == '/') (terminateFrom (s.step '/' rest.head?) rest) := stops_comment comment (by decide)
    rw [drops.emitted, List.nil_append] at same
    rw [same] at stops
    exact absurd (stops '/' rfl) (by decide)
  · rw [closes.emitted, closes.lineEnd] at same
    exact absurd (List.cons.inj same).1 (by decide)

theorem keeps_of_same (here : s.region ≠ .comment) (same : terminateFrom s (before ++ c :: rest) = before ++ c :: rest) :
    s.kept before (c :: rest) = before ∧ (s.behind before (c :: rest)).region ≠ .comment ∧
      (s.behind before (c :: rest)).Keeps c rest.head? := by
  induction before generalizing s with
  | nil => exact ⟨rfl, here, (keeps_first here same).1⟩
  | cons d before ih =>
    obtain ⟨first, later, sameLater⟩ := keeps_first here same
    obtain ⟨kept, inside, keeps⟩ := ih later sameLater
    refine ⟨?_, inside, keeps⟩
    calc s.kept (d :: before) (c :: rest)
      _ = [d] ++ (s.step d (before ++ c :: rest).head?).kept before (c :: rest) := congrArg (· ++ _) first.emitted
      _ = d :: before := congrArg ([d] ++ ·) kept

end Scan

namespace IsTerminated

variable {text before rest : List Char}

theorem of_same (same : terminate text = text) : IsTerminated text := by
  constructor
  · rintro before rest rfl code
    obtain ⟨kept, here, keeps⟩ := Scan.keeps_of_same (s := {}) nofun same
    refine ((Scan.keeps_iff here).mp keeps).1 ⟨?_, rfl, rfl⟩
    rw [Scan.behind_of_kept kept here]
    exact code
  · rintro before rest rfl code unbracketed
    obtain ⟨kept, here, keeps⟩ := Scan.keeps_of_same (s := {}) nofun same
    have tells := Scan.behind_of_kept kept here
    by_contra isOpen
    refine ((Scan.keeps_iff here).mp keeps).2 ⟨rfl, ?_, ?_⟩
    · rw [tells, code]
      rfl
    · rw [tells, Scan.isOpen_iff_closed]
      exact ⟨unbracketed, isOpen⟩

/-- Every beginning of such a text is put out as it stands. -/
theorem kept (terminated : IsTerminated text) (split : text = before ++ rest) :
    Scan.kept {} before rest = before ∧ (Scan.behind {} before rest).region ≠ .comment := by
  induction before using List.reverseRecOn generalizing rest with
  | nil => exact ⟨rfl, nofun⟩
  | append_singleton before c ih =>
    rw [List.append_assoc, List.singleton_append] at split
    obtain ⟨kept, here⟩ := ih split
    have tells := Scan.behind_of_kept kept here
    have keeps : (Scan.behind {} before (c :: rest)).Keeps c rest.head? := by
      refine (Scan.keeps_iff here).mpr ⟨?_, ?_⟩
      · rintro ⟨code, rfl, slash⟩
        rw [tells] at code
        obtain ⟨rest, rfl⟩ := List.head?_eq_some_iff.mp slash
        exact terminated.uncommented before rest split code
      · rintro ⟨rfl, outside, isOpen⟩
        rw [Region.uncommented_eq here, tells] at outside
        rw [tells, Scan.isOpen_iff_closed] at isOpen
        exact isOpen.2 (terminated.closed before rest split outside isOpen.1)
    rw [Scan.kept_append, Scan.behind_append, List.singleton_append, kept]
    exact ⟨congrArg (before ++ ·) ((List.append_nil _).trans keeps.emitted), keeps.outside⟩

theorem same (terminated : IsTerminated text) : terminate text = text := by
  rw [terminate, ← Scan.kept_nil]
  exact (terminated.kept (List.append_nil text).symm).1

end IsTerminated

/-- Terminating a text once more changes nothing. The texts that termination leaves as they are are those with all
statements terminated. -/
theorem terminate_once (source : List Char) :
    terminate (terminate source) = terminate source ∧ ∀ text, terminate text = text ↔ IsTerminated text :=
  ⟨Scan.terminateFrom_terminateFrom {} source, fun _ => ⟨.of_same, IsTerminated.same⟩⟩

end PhyLang.Source
