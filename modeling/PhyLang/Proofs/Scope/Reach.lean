import PhyLang.Proofs.Scope.Frames
import PhyLang.Proofs.Value.Plain

namespace PhyLang

/-- A value is a function that captured a frame, or hands such a function on. -/
def Value.Captures : Value → FrameId → Prop
  | .fn closure, f => closure.frame = f
  | .signal value, f => value.Captures f
  | _, _ => False

theorem Value.IsPlain.not_captures {v : Value} (plain : v.IsPlain) (f : FrameId) : ¬v.Captures f := by
  cases v <;> first | exact id | exact plain.elim

namespace Heap

/-- The frames that some frames reach, along parents and functions that are bound in frames. -/
inductive Reaches (h : Heap) (roots : FrameId → Prop) : FrameId → Prop
  | root {f : FrameId} (start : roots f) : Reaches h roots f
  | parent {f p : FrameId} {frame : Frame} (reached : Reaches h roots f) (found : h.frame? f = some frame)
      (parent : frame.parent = some p) : Reaches h roots p
  | captured {f g : FrameId} {frame : Frame} {binding : Binding} (reached : Reaches h roots f)
      (found : h.frame? f = some frame) (member : binding ∈ frame.bindings) (captures : binding.2.Captures g) :
      Reaches h roots g

/-- A frame of a region, or one of those made since, when there are so many frames. -/
def Accessible (before : Heap) (region : FrameId → Prop) (n : Nat) (f : FrameId) : Prop :=
  region f ∨ before.size ≤ f ∧ f < n

/-- What has happened to the frames so far touched a region alone, from which nothing outside can be reached:
other frames are as they were, and the frames of the region and those made since have no other parents and
hold no functions of other frames. -/
structure Isolates (before : Heap) (region : FrameId → Prop) (after : Heap) : Prop where
  grown : before.size ≤ after.size
  kept : ∀ f < before.size, ¬region f → after.frame? f = before.frame? f
  parents : ∀ f frame p, before.Accessible region after.size f → after.frame? f = some frame →
    frame.parent = some p → before.Accessible region after.size p
  captures : ∀ f frame g, before.Accessible region after.size f → after.frame? f = some frame →
    ∀ binding ∈ frame.bindings, binding.2.Captures g → before.Accessible region after.size g

variable {before h : Heap} {region : FrameId → Prop} {f : FrameId}

theorem Accessible.mono {n k : Nat} (accessible : before.Accessible region n f) (le : n ≤ k) :
    before.Accessible region k f :=
  accessible.imp id fun made => ⟨made.1, made.2.trans_le le⟩

/-- At first nothing has happened. -/
theorem isolates_reaches (before : Heap) (roots : FrameId → Prop) : before.Isolates (before.Reaches roots) before := by
  have inside : ∀ g, before.Accessible (before.Reaches roots) before.size g → before.Reaches roots g := by
    rintro g (reached | ⟨above, below⟩)
    · exact reached
    · exact absurd below (Nat.not_lt.mpr above)
  refine ⟨le_rfl, fun _ _ _ => rfl, ?_, ?_⟩
  · intro g frame p accessible found parent
    exact .inl (.parent (inside g accessible) found parent)
  · intro g frame captured accessible found binding member captures
    exact .inl (.captured (inside g accessible) found member captures)

namespace Isolates

/-- A new frame inside of an accessible one is accessible. -/
theorem push (isolates : before.Isolates region h) (accessible : before.Accessible region h.size f) :
    before.Isolates region (h.push (some f)) := by
  have size := size_push h (some f)
  have more : h.size ≤ (h.push (some f)).size := (Nat.le_succ _).trans_eq size.symm
  -- Every frame but the new one was accessible before.
  have old : ∀ g, before.Accessible region (h.push (some f)).size g → g ≠ h.size →
      before.Accessible region h.size g := by
    rintro g (inside | ⟨above, below⟩) other
    · exact .inl inside
    · exact .inr ⟨above, by rw [size] at below; exact lt_of_le_of_ne (Nat.lt_succ_iff.mp below) other⟩
  refine ⟨isolates.grown.trans more, ?_, ?_, ?_⟩
  · intro g below outside
    rw [frame?_push_old (below.trans_le isolates.grown)]
    exact isolates.kept g below outside
  · intro g frame p accessible' found parent
    refine Accessible.mono ?_ more
    rw [frame?_push] at found
    split at found
    next =>
      cases found
      dsimp only at parent
      obtain ⟨same, -⟩ := Option.filter_eq_some_iff.mp parent
      exact Option.some.inj same ▸ accessible
    next other => exact isolates.parents g frame p (old g accessible' other) found parent
  · intro g frame captured accessible' found binding member captures
    refine Accessible.mono ?_ more
    rw [frame?_push] at found
    split at found
    next =>
      cases found
      cases member
    next other => exact isolates.captures g frame captured (old g accessible' other) found binding member captures

/-- A change to an accessible frame which brings in nothing but a value that captures accessible frames. -/
theorem modify (isolates : before.Isolates region h) (accessible : before.Accessible region h.size f) {v : Value}
    (holds : ∀ g, v.Captures g → before.Accessible region h.size g) {change : List Binding → List Binding}
    (brings : ∀ bindings, ∀ binding ∈ change bindings, binding ∈ bindings ∨ binding.2 = v) :
    before.Isolates region (h.modify f change) := by
  have size := size_modify h f change
  refine ⟨size ▸ isolates.grown, ?_, ?_, ?_⟩
  · intro g below outside
    have other : f ≠ g := by
      rintro rfl
      rcases accessible with inside | ⟨above, -⟩
      · exact outside inside
      · exact absurd below (Nat.not_lt.mpr above)
    rw [frame?_modify_other change other]
    exact isolates.kept g below outside
  · intro g frame p accessible' found parent
    rw [size] at accessible' ⊢
    obtain ⟨old, present, sameParent, -⟩ := frame?_of_modify found
    exact isolates.parents g old p accessible' present (sameParent ▸ parent)
  · intro g frame captured accessible' found binding member captures
    rw [size] at accessible' ⊢
    obtain ⟨old, present, -, bindings⟩ := frame?_of_modify found
    rw [bindings] at member
    split at member
    next =>
      rcases brings _ binding member with earlier | new
      · exact isolates.captures g old captured accessible' present binding earlier captures
      · exact holds captured (new ▸ captures)
    next => exact isolates.captures g old captured accessible' present binding member captures

theorem bind (isolates : before.Isolates region h) (accessible : before.Accessible region h.size f) (key : Key)
    {v : Value} (holds : ∀ g, v.Captures g → before.Accessible region h.size g) :
    before.Isolates region (h.bind f key v) := by
  refine isolates.modify accessible holds fun bindings binding member => ?_
  rcases List.mem_append.mp member with earlier | last
  · exact .inl earlier
  · exact .inr (by rw [List.mem_singleton.mp last])

theorem rebind (isolates : before.Isolates region h) (accessible : before.Accessible region h.size f) (key : Key)
    {v : Value} (holds : ∀ g, v.Captures g → before.Accessible region h.size g) :
    before.Isolates region (h.rebind f key v) := by
  refine isolates.modify accessible holds fun bindings binding member => ?_
  obtain ⟨earlier, inside, same⟩ := List.mem_map.mp member
  split at same
  · exact .inr (by rw [← same])
  · exact .inl (same ▸ inside)

/-- Names that are looked up from an accessible frame are found in accessible frames. -/
theorem holder (isolates : before.Isolates region h) (accessible : before.Accessible region h.size f) {key : Key}
    {holder : FrameId} (found : h.holder? f key = some holder) : before.Accessible region h.size holder :=
  holder?_closed isolates.parents accessible found

theorem get (isolates : before.Isolates region h) (accessible : before.Accessible region h.size f) {key : Key}
    {v : Value} (found : h.get? f key = some v) : ∀ g, v.Captures g → before.Accessible region h.size g := by
  intro g captures
  obtain ⟨holder, frame, atHolder, present, binding, member, rfl⟩ := get?_bound found
  exact isolates.captures holder frame g (isolates.holder accessible atHolder) present binding member captures

end Isolates

end Heap

end PhyLang
