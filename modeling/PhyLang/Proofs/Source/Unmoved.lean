import PhyLang.Proofs.Source.Position
import PhyLang.Proofs.Source.Terminated

namespace PhyLang.Source

/-- Whether the texts before and after termination go on at matching places: at the same place, or on the
same line while a comment is left out. -/
structure Scan.Aligns (s : Scan) (kept source : Position) : Prop where
  line : kept.line = source.line
  place : s.region ≠ .comment → kept = source

section Aligns

variable {s next : Scan} {kept source : Position}

theorem Scan.Aligns.step (aligned : s.Aligns kept source) (here : s.region ≠ .comment) (c : Char) :
    next.Aligns (kept.next c) (source.next c) := by
  rw [aligned.place here]
  exact ⟨rfl, fun _ => rfl⟩

theorem Scan.Aligns.lineEnd (aligned : s.Aligns kept source) :
    next.Aligns (kept.next '\n') (source.next '\n') := by
  have same : kept.next '\n' = source.next '\n' := congrArg (Position.mk · 1) (congrArg (· + 1) aligned.line)
  exact ⟨congrArg _ same, fun _ => same⟩

end Aligns

/-- A visible character of the terminated text stands where it stood, unless it is a semicolon that was added
at the end of its line. -/
theorem standsAt_of_terminateFrom {s : Scan} {source : List Char} {start sourceStart place : Position} {c : Char}
    (visible : c ≠ '\n') (aligned : s.Aligns start sourceStart)
    (stands : StandsAt start (terminateFrom s source) c place) : StandsAt sourceStart source c place ∨
      c = ';' ∧ StandsAt start (terminateFrom s source) '\n' (place.next ';') := by
  fun_induction terminateFrom s source generalizing start sourceStart with
  | case1 => exact absurd stands not_standsAt_nil
  | case2 s d rest region ih =>
    have here : s.region ≠ .comment := by simp [region]
    rcases standsAt_cons.mp stands with ⟨rfl, rfl⟩ | later
    · exact .inl (standsAt_cons.mpr (.inl ⟨rfl, (aligned.place here).symm⟩))
    · exact (ih (aligned.step here d) later).imp StandsAt.cons (And.imp_right StandsAt.cons)
  | case3 s d rest region ih =>
    have here : s.region ≠ .comment := by simp [region]
    rcases standsAt_cons.mp stands with ⟨rfl, rfl⟩ | later
    · exact .inl (standsAt_cons.mpr (.inl ⟨rfl, (aligned.place here).symm⟩))
    · exact (ih (aligned.step here d) later).imp StandsAt.cons (And.imp_right StandsAt.cons)
  | case4 s rest _ _ isOpen ih =>
    -- The semicolon that is added stands at the end of the line.
    rcases standsAt_cons.mp stands with ⟨rfl, rfl⟩ | behind
    · exact .inr ⟨rfl, .cons (standsAt_cons.mpr (.inl ⟨rfl, rfl⟩))⟩
    · rcases standsAt_cons.mp behind with ⟨rfl, -⟩ | later
      · exact absurd rfl visible
      · exact (ih aligned.lineEnd later).imp StandsAt.cons (And.imp_right fun end_ => .cons (.cons end_))
  | case5 s rest _ _ closed ih =>
    rcases standsAt_cons.mp stands with ⟨rfl, -⟩ | later
    · exact absurd rfl visible
    · exact (ih aligned.lineEnd later).imp StandsAt.cons (And.imp_right StandsAt.cons)
  | case6 s d rest inLine _ _ comment ih =>
    have aligned : Scan.Aligns { s with region := .comment } start (sourceStart.next d) := by
      refine ⟨?_, fun other => absurd rfl other⟩
      rw [Position.next, if_neg inLine]
      exact aligned.line
    exact (ih aligned stands).imp_left StandsAt.cons
  | case7 s d rest inLine _ _ code ih =>
    have here : s.region ≠ .comment := fun comment => code (.inl comment)
    rcases standsAt_cons.mp stands with ⟨rfl, rfl⟩ | later
    · exact .inl (standsAt_cons.mpr (.inl ⟨rfl, (aligned.place here).symm⟩))
    · exact (ih (aligned.step here d) later).imp StandsAt.cons (And.imp_right StandsAt.cons)

/-- A visible character of the terminated source stands in the source at its place, unless it is a semicolon
behind which nothing stands in its line. -/
theorem charAt?_of_terminate {source : List Char} {place : Position} {c : Char}
    (found : charAt? (terminate source) place = some c) : charAt? source place = some c ∨
      c = ';' ∧ charAt? (terminate source) (place.next ';') = none := by
  obtain ⟨visible, stands⟩ := charAt?_eq_some_iff.mp found
  rcases standsAt_of_terminateFrom visible ⟨rfl, fun _ => rfl⟩ stands with same | ⟨rfl, lineEnd⟩
  · exact .inl (charAt?_eq_some_iff.mpr ⟨visible, same⟩)
  · refine .inr ⟨rfl, Option.eq_none_iff_forall_ne_some.mpr fun d behind => ?_⟩
    obtain ⟨other, here⟩ := charAt?_eq_some_iff.mp behind
    exact other (here.unique lineEnd)

end PhyLang.Source
