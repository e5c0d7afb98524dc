import Mathlib.Tactic
import PhyLang.Scope.Heap

namespace PhyLang.Heap

/-- All values that are bound in frames of a heap are of a kind. -/
def Holds (h : Heap) (good : Value → Prop) : Prop := ∀ frame ∈ h.frames, ∀ binding ∈ frame.bindings, good binding.2

variable {h : Heap} {good : Value → Prop}

theorem Holds.mono {better : Value → Prop} (holds : h.Holds better) (weaker : ∀ v, better v → good v) :
    h.Holds good :=
  fun frame inside binding member => weaker _ (holds frame inside binding member)

theorem Holds.push (holds : h.Holds good) (parent : Option FrameId) : (h.push parent).Holds good := by
  intro frame inside
  rcases Array.mem_push.mp inside with old | new
  · exact holds frame old
  · subst frame
    simp

theorem Holds.modify (holds : h.Holds good) (f : FrameId) {change : List Binding → List Binding}
    (kept : ∀ bindings, (∀ binding ∈ bindings, good binding.2) → ∀ binding ∈ change bindings, good binding.2) :
    (h.modify f change).Holds good := by
  intro frame inside
  obtain ⟨i, bound, found⟩ := Array.mem_iff_getElem.mp inside
  have within : i < h.frames.size := by
    simpa only [Heap.modify, Array.size_modify] using bound
  have old := holds h.frames[i] (Array.getElem_mem within)
  simp only [Heap.modify, Array.getElem_modify] at found
  split at found
  · subst frame
    exact kept _ old
  · subst frame
    exact old

theorem Holds.bind (holds : h.Holds good) (f : FrameId) (key : Key) {v : Value} (new : good v) :
    (h.bind f key v).Holds good := by
  refine holds.modify f fun bindings old binding member => ?_
  rcases List.mem_append.mp member with earlier | last
  · exact old binding earlier
  · rw [List.mem_singleton.mp last]
    exact new

theorem Holds.rebind (holds : h.Holds good) (f : FrameId) (key : Key) {v : Value} (new : good v) :
    (h.rebind f key v).Holds good := by
  refine holds.modify f fun bindings old binding member => ?_
  obtain ⟨earlier, inside, same⟩ := List.mem_map.mp member
  split at same
  · subst binding
    exact new
  · subst binding
    exact old earlier inside

theorem Holds.get? (holds : h.Holds good) {f : FrameId} {key : Key} {v : Value} (found : h.get? f key = some v) :
    good v := by
  simp only [Heap.get?, Option.bind_eq_bind, Option.bind_eq_some_iff] at found
  obtain ⟨holder, _, frame, atHolder, value⟩ := found
  obtain ⟨binding, member, rfl⟩ := Option.map_eq_some_iff.mp value
  exact holds frame (Array.mem_of_getElem? atHolder) binding (List.mem_of_find?_eq_some member)

/-- The frame that is found for a name binds it. -/
theorem holder?_binds {f holder : FrameId} {key : Key} (found : h.holder? f key = some holder) :
    ∃ inside : holder < h.frames.size, h.frames[holder].binds key := by
  induction f using Nat.strong_induction_on with
  | _ f ih =>
    rw [holder?] at found
    split at found
    next inside =>
      split at found
      next binds =>
        cases found
        exact ⟨inside, binds⟩
      next =>
        split at found
        next p parent => exact ih p (h.parent_lt f inside p (by simp [parent])) found
        next => cases found
    next => cases found

/-- A value that is assigned to a name is one of the values of the heap. -/
theorem Holds.of_rebind {f holder : FrameId} {key : Key} {v : Value} (found : h.holder? f key = some holder)
    (holds : (h.rebind holder key v).Holds good) : good v := by
  obtain ⟨inside, binds⟩ := holder?_binds found
  obtain ⟨binding, member, same⟩ := List.any_eq_true.mp binds
  have bound : holder < (h.rebind holder key v).frames.size := by
    simpa only [Heap.rebind, Heap.modify, Array.size_modify] using inside
  have rebound : (h.rebind holder key v).frames[holder].bindings = Frame.replace key v h.frames[holder].bindings := by
    simp only [Heap.rebind, Heap.modify, Array.getElem_modify_self]
  have replaced : (key, v) ∈ Frame.replace key v h.frames[holder].bindings :=
    List.mem_map.mpr ⟨binding, member, if_pos same⟩
  exact holds _ (Array.getElem_mem bound) (key, v) (rebound ▸ replaced)

end PhyLang.Heap
