import PhyLang.Proofs.Source.Lines

namespace PhyLang.Source

/-- The last visible character of a text leaves no statement open. -/
def IsClosed (last : Option Char) : Prop := ∀ c ∈ last, c ∈ [';', '\x7b', '\x7d']

instance (last : Option Char) : Decidable (IsClosed last) := inferInstanceAs (Decidable (∀ c ∈ last, _))

namespace Scan

theorem isOpen_iff_closed (s : Scan) : s.isOpen ↔ s.depth = 0 ∧ ¬IsClosed s.last := by
  rw [isOpen_iff]
  simp [IsClosed]

/-- Two scans go on alike: they differ at most in the last visible character, and then no statement is open. -/
structure Like (s t : Scan) : Prop where
  region : s.region = t.region
  depth : s.depth = t.depth
  last : s.last = t.last ∨ IsClosed s.last ∧ IsClosed t.last

variable {s t : Scan}

theorem Like.isOpen (like : s.Like t) : s.isOpen = t.isOpen := by
  rw [Bool.eq_iff_iff, isOpen_iff_closed, isOpen_iff_closed, like.depth]
  rcases like.last with same | ⟨closed, closed'⟩
  · rw [same]
  · simp [closed, closed']

theorem Like.emitted (like : s.Like t) (c : Char) (following : Option Char) :
    s.emitted c following = t.emitted c following := by
  unfold Scan.emitted
  rw [like.region, like.isOpen]

theorem Like.step (like : s.Like t) (c : Char) (following : Option Char) :
    (s.step c following).Like (t.step c following) where
  region := by rw [region_step, region_step, like.region]
  depth := by rw [depth_step, depth_step, like.region, like.depth]
  last := by
    rw [last_step, last_step, like.emitted]
    cases lastVisible (t.emitted c following) with
    | none => exact like.last
    | some _ => exact .inl rfl

theorem Like.terminateFrom_eq (like : s.Like t) (rest : List Char) : terminateFrom s rest = terminateFrom t rest := by
  induction rest generalizing s t with
  | nil => rfl
  | cons c rest ih => rw [terminateFrom_cons, terminateFrom_cons, like.emitted, ih (like.step c rest.head?)]

theorem Like.kept (like : s.Like t) (before rest : List Char) : s.kept before rest = t.kept before rest := by
  induction before generalizing s t with
  | nil => rfl
  | cons c before ih => rw [Scan.kept, Scan.kept, like.emitted, ih (like.step c _)]

theorem Like.behind (like : s.Like t) (before rest : List Char) :
    (s.behind before rest).Like (t.behind before rest) := by
  induction before generalizing s t with
  | nil => exact like
  | cons c before ih => exact ih (like.step c _)

theorem Like.closes (like : s.Like t) : s.closes ↔ t.closes := by
  rw [Scan.closes, Scan.closes, like.region, like.isOpen]

section LineEnd

variable (outside : s.region.uncommented = .code) (unbracketed : s.depth = 0)

include outside unbracketed

/-- Behind a line end outside of strings and brackets the scan is like that at the start of a text. -/
theorem like_lineEnd (following : Option Char) : (s.step '\n' following).Like {} := by
  refine ⟨?_, ?_, .inr ⟨?_, by simp [IsClosed]⟩⟩
  · rw [region_step]
    cases region : s.region <;> simp [region, Region.uncommented, Region.next] at outside ⊢
  · rw [depth_step, unbracketed]
    simp [Region.bracket]
  · rw [last_step, emitted_lineEnd]
    by_cases isOpen : s.isOpen
    · rw [if_pos ⟨outside, isOpen⟩]
      have semicolon : (lastVisible ([';'] ++ ['\n'])).or s.last = some ';' := rfl
      rw [semicolon]
      simp [IsClosed]
    · rw [if_neg fun closes => isOpen closes.2]
      rw [isOpen_iff_closed, not_and_not_right] at isOpen
      exact isOpen unbracketed

/-- Behind a line end outside of strings and brackets termination starts again. -/
theorem terminateFrom_lineEnd (rest : List Char) :
    terminateFrom s ('\n' :: rest) = (if s.isOpen then [';'] else []) ++ '\n' :: terminate rest := by
  have like := like_lineEnd outside unbracketed rest.head?
  rw [terminateFrom_cons, like.terminateFrom_eq, emitted_lineEnd, List.append_assoc]
  simp only [closes, outside, true_and]
  rfl

end LineEnd

end Scan

/-- A line end behind a text changes nothing in the scan of the text. -/
theorem behind_lineEnd_eq (first rest : List Char) :
    Scan.behind {} first ('\n' :: rest) = Scan.behind {} first [] ∧ Scan.kept {} first ('\n' :: rest) = terminate first := by
  have noSlash : ('\n' :: rest).head? = some '/' ↔ ([] : List Char).head? = some '/' := by simp
  obtain ⟨same, put⟩ : Scan.behind {} first ('\n' :: rest) = Scan.behind {} first [] ∧
      Scan.kept {} first ('\n' :: rest) = Scan.kept {} first [] := Scan.behind_congr noSlash
  exact ⟨same, put.trans (Scan.kept_nil {} first)⟩

/-- A line end behind a text that ends in code and outside of round brackets closes a statement that is left open,
and then the source starts again. -/
theorem terminate_append_lineEnd {first : List Char} (code : Region.past .code (terminate first) = .code)
    (unbracketed : Region.depthPast .code 0 (terminate first) = 0) (rest : List Char) :
    terminate (first ++ '\n' :: rest) =
      terminate first ++ (if IsClosed (lastVisible (terminate first)) then [] else [';']) ++ '\n' :: terminate rest := by
  let behind := Scan.behind {} first ('\n' :: rest)
  have kept : Scan.kept {} first ('\n' :: rest) = terminate first := (behind_lineEnd_eq first rest).2
  have region : behind.region.uncommented = .code := by
    rw [← Scan.past_kept, kept]
    exact code
  have depth : behind.depth = 0 := by
    rw [← Scan.depthPast_kept, kept]
    exact unbracketed
  have last : behind.last = lastVisible (terminate first) := by
    rw [Scan.last_behind, kept, Option.or_none]
  rw [terminate, Scan.terminateFrom_append, kept, Scan.terminateFrom_lineEnd region depth, List.append_assoc]
  by_cases closed : IsClosed (lastVisible (terminate first))
  · have ended : ¬behind.isOpen := by
      rw [Scan.isOpen_iff_closed, last]
      exact fun both => both.2 closed
    rw [if_pos closed, if_neg ended]
  · have isOpen : behind.isOpen := by
      rw [Scan.isOpen_iff_closed, last]
      exact ⟨depth, closed⟩
    rw [if_neg closed, if_pos isOpen]

theorem kept_lineEnd (first rest : List Char) :
    Scan.kept {} (first ++ ['\n']) rest = terminate (first ++ ['\n']) := by
  rw [terminate, ← Scan.kept_nil, (Scan.behind_lineEnd {} first rest).2, (Scan.behind_lineEnd {} first []).2]

section Splits

variable {first : List Char} (outside : (Scan.behind {} first []).region.uncommented = .code)
  (unbracketed : (Scan.behind {} first []).depth = 0)

include outside unbracketed

theorem like_behind_lineEnd (rest : List Char) : (Scan.behind {} (first ++ ['\n']) rest).Like {} := by
  rw [(Scan.behind_lineEnd {} first rest).1, (behind_lineEnd_eq first []).1]
  exact Scan.like_lineEnd outside unbracketed none

/-- What was put out behind a line end outside of strings and brackets leaves no statement open. -/
theorem isClosed_lineEnd : IsClosed (lastVisible (terminate (first ++ ['\n']))) := by
  have last := Scan.last_behind {} (first ++ ['\n']) []
  rw [kept_lineEnd, Option.or_none] at last
  rw [← last]
  rcases (like_behind_lineEnd outside unbracketed []).last with same | ⟨closed, -⟩
  · rw [same]
    simp [IsClosed]
  · exact closed

/-- Behind a line end outside of strings and brackets, whether a later line end closes a statement is told by what was
put out since. -/
theorem closes_since_lineEnd (line rest : List Char) :
    let s := Scan.behind {} (first ++ ['\n'] ++ line) ('\n' :: rest)
    s.closes ↔ s.region.uncommented = .code ∧ s.depth = 0 ∧
      ¬IsClosed (lastVisible (Scan.kept {} line ('\n' :: rest))) := by
  intro s
  have like : s.Like (Scan.behind {} line ('\n' :: rest)) := by
    have same : s = _ := Scan.behind_append {} (first ++ ['\n']) line ('\n' :: rest)
    rw [same]
    exact (like_behind_lineEnd outside unbracketed _).behind line ('\n' :: rest)
  rw [like.closes, like.region, like.depth, Scan.closes, Scan.isOpen_iff_closed, Scan.last_behind, Option.or_none]

end Splits

/-- Termination splits at a line end outside of strings and brackets, even at the end of a comment: the text behind it
is terminated as if it stood alone. Up to there nothing is put out that leaves a statement open, so whether a later
line end closes a statement is told by what was put out since. -/
theorem terminate_splits {first : List Char} (outside : (Scan.behind {} first []).region.uncommented = .code)
    (unbracketed : (Scan.behind {} first []).depth = 0) (second : List Char) :
    terminate (first ++ '\n' :: second) = terminate (first ++ ['\n']) ++ terminate second ∧
      IsClosed (lastVisible (terminate (first ++ ['\n']))) ∧
      ∀ line rest, second = line ++ '\n' :: rest →
        let s := Scan.behind {} (first ++ '\n' :: line) ('\n' :: rest)
        Scan.kept {} (first ++ '\n' :: line) ('\n' :: rest) =
            terminate (first ++ ['\n']) ++ Scan.kept {} line ('\n' :: rest) ∧
          (s.closes ↔ s.region.uncommented = .code ∧ s.depth = 0 ∧
            ¬IsClosed (lastVisible (Scan.kept {} line ('\n' :: rest)))) := by
  have ends (text : List Char) : first ++ '\n' :: text = first ++ ['\n'] ++ text := by simp
  refine ⟨?_, isClosed_lineEnd outside unbracketed, ?_⟩
  · rw [ends, terminate, Scan.terminateFrom_append, kept_lineEnd,
      (like_behind_lineEnd outside unbracketed second).terminateFrom_eq]
    rfl
  · rintro line rest rfl
    rw [ends, Scan.kept_append, kept_lineEnd, (like_behind_lineEnd outside unbracketed _).kept]
    exact ⟨rfl, closes_since_lineEnd outside unbracketed line rest⟩

/-- The first text ends in a comment with a quote and a bracket in it. -/
theorem terminate_splits_comment :
    Scan.behind {} "f(\"(\") // \"(".toList [] = ⟨.comment, 0, some ')'⟩ ∧
      let first := "f(\"(\") // \"(".toList
      let second := "\n\x7d // ;\ng".toList
      terminate (first ++ '\n' :: second) = terminate (first ++ ['\n']) ++ terminate second ∧
        IsClosed (lastVisible (terminate (first ++ ['\n']))) ∧
        let line := "\n\x7d // ;".toList
        let s := Scan.behind {} (first ++ '\n' :: line) "\ng".toList
        Scan.kept {} (first ++ '\n' :: line) "\ng".toList =
            terminate (first ++ ['\n']) ++ Scan.kept {} line "\ng".toList ∧
          (s.closes ↔ s.region.uncommented = .code ∧ s.depth = 0 ∧
            ¬IsClosed (lastVisible (Scan.kept {} line "\ng".toList))) := by
  have scanned : Scan.behind {} "f(\"(\") // \"(".toList [] = ⟨.comment, 0, some ')'⟩ := by decide
  have outside : (Scan.behind {} "f(\"(\") // \"(".toList []).region.uncommented = .code := by rw [scanned]; rfl
  have unbracketed : (Scan.behind {} "f(\"(\") // \"(".toList []).depth = 0 := by rw [scanned]
  obtain ⟨splits, closed, since⟩ := terminate_splits outside unbracketed "\n\x7d // ;\ng".toList
  exact ⟨scanned, splits, closed, since "\n\x7d // ;".toList "g".toList (by decide)⟩

end PhyLang.Source
