import PhyLang.Proofs.Scope.Frames

namespace PhyLang

/-- A binding with its value changed. -/
def Binding.map (g : Value → Value) (binding : Binding) : Binding := (binding.1, g binding.2)

/-- A frame with all its values changed. -/
def Frame.map (g : Value → Value) (frame : Frame) : Frame :=
  { frame with bindings := frame.bindings.map (Binding.map g) }

namespace Heap

/-- A heap with all its values changed. Operations on frames do not look at the values, so they commute with
this. -/
def map (g : Value → Value) (h : Heap) : Heap where
  frames := h.frames.map (Frame.map g)
  parent_lt := by
    intro i inside p member
    rw [Array.size_map] at inside
    rw [Array.getElem_map] at member
    exact h.parent_lt i inside p member

theorem ext_frames {h h' : Heap} (same : h.frames = h'.frames) : h = h' := by
  cases h
  cases h'
  cases same
  rfl

variable {g : Value → Value} {h : Heap}

theorem size_map (g : Value → Value) (h : Heap) : (h.map g).size = h.size := Array.size_map

theorem frame?_map (g : Value → Value) (h : Heap) (f : FrameId) :
    (h.map g).frame? f = (h.frame? f).map (Frame.map g) := Array.getElem?_map

theorem map_push (parent : Option FrameId) : (h.push parent).map g = (h.map g).push parent := by
  apply ext_frames
  simp only [map, push, Array.map_push, Array.size_map]
  rfl

theorem map_modify {change change' : List Binding → List Binding} (f : FrameId)
    (commutes : ∀ bindings, (change bindings).map (Binding.map g) = change' (bindings.map (Binding.map g))) :
    (h.modify f change).map g = (h.map g).modify f change' := by
  apply ext_frames
  apply Array.ext_getElem?
  intro i
  simp only [map, modify, Array.getElem?_map, Array.getElem?_modify]
  split
  · cases h.frames[i]? with
    | none => rfl
    | some frame => simp only [Option.map_some, Frame.map, commutes]
  · rfl

theorem map_bind (f : FrameId) (key : Key) (value : Value) :
    (h.bind f key value).map g = (h.map g).bind f key (g value) :=
  map_modify f fun _ => List.map_append

theorem map_rebind (f : FrameId) (key : Key) (value : Value) :
    (h.rebind f key value).map g = (h.map g).rebind f key (g value) := by
  refine map_modify f fun bindings => ?_
  simp only [Frame.replace, List.map_map]
  refine List.map_congr_left fun binding _ => ?_
  by_cases same : (binding.1 == key) = true
  · simp only [Function.comp_apply, Binding.map, same, if_true]
  · simp only [Function.comp_apply, Binding.map, same, Bool.false_eq_true, if_false]

theorem map_frame_binds (frame : Frame) (key : Key) : (frame.map g).binds key = frame.binds key := by
  simp only [Frame.binds, Frame.map, List.any_map]
  rfl

theorem map_binds (f : FrameId) (key : Key) : (h.map g).binds f key = h.binds f key := by
  unfold binds
  rw [frame?_map]
  cases h.frame? f with
  | none => rfl
  | some frame => exact map_frame_binds frame key

theorem map_holder? (f : FrameId) (key : Key) : (h.map g).holder? f key = h.holder? f key := by
  induction f using Nat.strong_induction_on with
  | _ f ih =>
    rw [holder?, holder?]
    by_cases inside : f < h.frames.size
    · have inside' : f < (h.map g).frames.size := by simpa only [map, Array.size_map] using inside
      have frame : (h.map g).frames[f] = h.frames[f].map g := Array.getElem_map ..
      rw [dif_pos inside, dif_pos inside', frame, map_frame_binds]
      split
      · rfl
      · split
        next p found =>
          change h.frames[f].parent = some p at found
          split
          next q found' =>
            cases Option.some.inj (found.symm.trans found')
            exact ih p (h.parent_lt f inside p (by simp [found]))
          next found' => cases found.symm.trans found'
        next found =>
          change h.frames[f].parent = none at found
          split
          next q found' => cases found.symm.trans found'
          next => rfl
    · have outside : ¬f < (h.map g).frames.size := by simpa only [map, Array.size_map] using inside
      rw [dif_neg inside, dif_neg outside]

theorem map_get? (f : FrameId) (key : Key) : (h.map g).get? f key = (h.get? f key).map g := by
  unfold get?
  rw [map_holder?]
  cases h.holder? f key with
  | none => rfl
  | some holder =>
    change ((h.map g).frame? holder).bind (Frame.find? · key) = ((h.frame? holder).bind (Frame.find? · key)).map g
    rw [frame?_map]
    cases h.frame? holder with
    | none => rfl
    | some frame =>
      change Frame.find? (frame.map g) key = (frame.find? key).map g
      unfold Frame.find? Frame.map
      rw [List.find?_map, Option.map_map, Option.map_map]
      rfl

end Heap

end PhyLang
