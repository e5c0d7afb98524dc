import Mathlib.Tactic
import PhyLang.Proofs.Scope.Values

namespace PhyLang.Heap

variable {h : Heap}

theorem size_push (h : Heap) (parent : Option FrameId) : (h.push parent).size = h.size + 1 := by
  simp [size, push]

theorem size_modify (h : Heap) (f : FrameId) (change : List Binding → List Binding) :
    (h.modify f change).size = h.size := by
  simp [size, modify]

theorem size_bind (h : Heap) (f : FrameId) (key : Key) (value : Value) : (h.bind f key value).size = h.size :=
  size_modify ..

theorem size_rebind (h : Heap) (f : FrameId) (key : Key) (value : Value) : (h.rebind f key value).size = h.size :=
  size_modify ..

theorem frame?_lt {g : FrameId} {frame : Frame} (found : h.frame? g = some frame) : g < h.size := by
  obtain ⟨inside, -⟩ := Array.getElem?_eq_some_iff.mp found
  exact inside

theorem frame?_push (h : Heap) (parent : Option FrameId) (g : FrameId) :
    (h.push parent).frame? g = if g = h.size then some ⟨parent.filter (· < h.size), []⟩ else h.frame? g := by
  simp only [frame?, push, size]
  rw [Array.getElem?_push]
  rfl

theorem frame?_push_old {parent : Option FrameId} {g : FrameId} (old : g < h.size) :
    (h.push parent).frame? g = h.frame? g := by
  rw [frame?_push, if_neg (Nat.ne_of_lt old)]

theorem frame?_modify (h : Heap) (f : FrameId) (change : List Binding → List Binding) (g : FrameId) :
    (h.modify f change).frame? g =
      (h.frame? g).map fun frame => if f = g then { frame with bindings := change frame.bindings } else frame := by
  simp only [frame?, modify]
  rw [Array.getElem?_modify]
  split
  · rfl
  · simp

theorem frame?_modify_other {f g : FrameId} (change : List Binding → List Binding) (other : f ≠ g) :
    (h.modify f change).frame? g = h.frame? g := by
  rw [frame?_modify]
  simp only [if_neg other, Option.map_id_fun', id]

/-- A frame of a modified heap has the parent that it had. -/
theorem frame?_of_modify {f g : FrameId} {change : List Binding → List Binding} {frame : Frame}
    (found : (h.modify f change).frame? g = some frame) :
    ∃ old, h.frame? g = some old ∧ frame.parent = old.parent ∧
      frame.bindings = if f = g then change old.bindings else old.bindings := by
  rw [frame?_modify] at found
  obtain ⟨old, present, rfl⟩ := Option.map_eq_some_iff.mp found
  refine ⟨old, present, ?_⟩
  split
  · exact ⟨rfl, rfl⟩
  · exact ⟨rfl, rfl⟩

/-- The frame that is found for a name is one that parents lead to. -/
theorem holder?_closed {reached : FrameId → Prop} (closed : ∀ g frame p, reached g → h.frame? g = some frame →
    frame.parent = some p → reached p) {f holder : FrameId} {key : Key} (start : reached f)
    (found : h.holder? f key = some holder) : reached holder := by
  induction f using Nat.strong_induction_on with
  | _ f ih =>
    rw [holder?] at found
    split at found
    next inside =>
      split at found
      next => exact Option.some.inj found ▸ start
      next =>
        split at found
        next p parent =>
          have there : h.frame? f = some h.frames[f] := Array.getElem?_eq_getElem inside
          exact ih p (h.parent_lt f inside p (by simp [parent])) (closed f _ p start there parent) found
        next => cases found
    next => cases found

/-- The value of a name is bound in the frame that is found for it. -/
theorem get?_bound {f : FrameId} {key : Key} {v : Value} (found : h.get? f key = some v) :
    ∃ holder frame, h.holder? f key = some holder ∧ h.frame? holder = some frame ∧
      ∃ binding ∈ frame.bindings, binding.2 = v := by
  simp only [get?, Option.bind_eq_bind, Option.bind_eq_some_iff] at found
  obtain ⟨holder, atHolder, frame, present, value⟩ := found
  obtain ⟨binding, member, same⟩ := Option.map_eq_some_iff.mp value
  exact ⟨holder, frame, atHolder, present, binding, List.mem_of_find?_eq_some member, same⟩

end PhyLang.Heap
