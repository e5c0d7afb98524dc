import PhyLang.Proofs.Scope.Frames

namespace PhyLang

/-- The names that a frame binds, in the order of their declarations. -/
def Frame.names (frame : Frame) : List Key := frame.bindings.map (·.1)

namespace Heap

/-- Names more in one frame, and none in any other. -/
def namesIn (f : FrameId) (names : List Key) (g : FrameId) : List Key := if f = g then names else []

/-- No name more in any frame. -/
def noNames (_ : FrameId) : List Key := []

theorem namesIn_nil (f : FrameId) : namesIn f [] = noNames := by
  funext g
  exact ite_self []

/-- Each frame still has its parent and its names, and besides them certain names more. -/
structure Extends (before after : Heap) (more : FrameId → List Key) : Prop where
  grown : before.size ≤ after.size
  frame : ∀ g frame, before.frame? g = some frame → ∃ frame', after.frame? g = some frame' ∧
    frame'.parent = frame.parent ∧ frame'.names = frame.names ++ more g

variable {before middle after h : Heap} {more : FrameId → List Key}

namespace Extends

theorem refl (h : Heap) : h.Extends h noNames :=
  ⟨le_rfl, fun _ frame found => ⟨frame, found, rfl, (List.append_nil _).symm⟩⟩

theorem trans (first : before.Extends middle noNames) (second : middle.Extends after more) :
    before.Extends after more := by
  refine ⟨first.grown.trans second.grown, fun g frame found => ?_⟩
  obtain ⟨frame', found', parent', names'⟩ := first.frame g frame found
  obtain ⟨frame'', found'', parent'', names''⟩ := second.frame g frame' found'
  refine ⟨frame'', found'', parent''.trans parent', ?_⟩
  rw [names'', names', noNames, List.append_nil]

theorem push (extended : before.Extends h more) (parent : Option FrameId) : before.Extends (h.push parent) more := by
  refine ⟨extended.grown.trans ((Nat.le_succ _).trans_eq (size_push h parent).symm), fun g frame found => ?_⟩
  obtain ⟨frame', found', kept⟩ := extended.frame g frame found
  exact ⟨frame', (frame?_push_old (frame?_lt found')).trans found', kept⟩

/-- A change to a frame made since then. -/
theorem modify_new (extended : before.Extends h more) {f : FrameId} (new : before.size ≤ f)
    (change : List Binding → List Binding) : before.Extends (h.modify f change) more := by
  refine ⟨extended.grown.trans_eq (size_modify h f change).symm, fun g frame found => ?_⟩
  obtain ⟨frame', found', kept⟩ := extended.frame g frame found
  have other : f ≠ g := by
    rintro rfl
    exact absurd (frame?_lt found) (Nat.not_lt.mpr new)
  exact ⟨frame', (frame?_modify_other change other).trans found', kept⟩

/-- An assignment adds no name. -/
theorem rebind (extended : before.Extends h more) (f : FrameId) (key : Key) (value : Value) :
    before.Extends (h.rebind f key value) more := by
  refine ⟨extended.grown.trans_eq (size_rebind h f key value).symm, fun g frame found => ?_⟩
  obtain ⟨frame', found', parent, names⟩ := extended.frame g frame found
  have same : (Frame.replace key value frame'.bindings).map (·.1) = frame'.bindings.map (·.1) := by
    refine (List.map_map ..).trans (List.map_congr_left fun binding _ => ?_)
    simp only [Function.comp]
    split
    next found => exact (beq_iff_eq.mp found).symm
    next => rfl
  refine ⟨_, (frame?_modify ..).trans (congrArg _ found'), ?_, ?_⟩
  · split
    · exact parent
    · exact parent
  · split
    · exact same.trans names
    · exact names

/-- A declaration adds its name to its frame alone. -/
theorem bind (extended : before.Extends h noNames) (f : FrameId) (key : Key) (value : Value) :
    before.Extends (h.bind f key value) (namesIn f [key]) := by
  refine ⟨extended.grown.trans_eq (size_bind h f key value).symm, fun g frame found => ?_⟩
  obtain ⟨frame', found', parent, names⟩ := extended.frame g frame found
  refine ⟨_, (frame?_modify ..).trans (congrArg _ found'), ?_, ?_⟩
  · split
    · exact parent
    · exact parent
  · rw [noNames, List.append_nil] at names
    unfold namesIn
    split
    · rw [← names]
      exact List.map_append
    · rw [List.append_nil]
      exact names

end Extends

end Heap

end PhyLang
