import PhyLang.Scope.Key
import PhyLang.Value.Basic

namespace PhyLang

abbrev Binding := Key × Value

structure Frame where
  parent : Option FrameId
  bindings : List Binding
  deriving Inhabited

namespace Frame

def find? (frame : Frame) (key : Key) : Option Value :=
  (frame.bindings.find? (·.1 == key)).map (·.2)

def binds (frame : Frame) (key : Key) : Bool := frame.bindings.any (·.1 == key)

def replace (key : Key) (value : Value) (bindings : List Binding) : List Binding :=
  bindings.map fun binding => if binding.1 == key then (key, value) else binding

/-- The bindings of a frame, sorted by the texts of the names. -/
def sorted (frame : Frame) : List (String × Value) :=
  (frame.bindings.map fun binding => (binding.1.toJson.shown, binding.2)).mergeSort fun a b => a.1 ≤ b.1

end Frame

/-- The frames of a run, each of which is known by its number. A parent is older than its children,
so every chain of parents ends. -/
structure Heap where
  frames : Array Frame := #[]
  parent_lt : ∀ (i : FrameId) (inside : i < frames.size), ∀ p ∈ frames[i].parent, p < i := by simp

namespace Heap

def empty : Heap := {}

instance : Inhabited Heap := ⟨empty⟩

def size (h : Heap) : Nat := h.frames.size

def frame? (h : Heap) (f : FrameId) : Option Frame := h.frames[f]?

/-- A heap with one more frame, which has the number `h.size`. The parent must be one of the frames
before it; otherwise the new frame has none. -/
def push (h : Heap) (parent : Option FrameId) : Heap where
  frames := h.frames.push ⟨parent.filter (· < h.frames.size), []⟩
  parent_lt := by
    intro i inside p member
    rw [Array.size_push] at inside
    rw [Array.getElem_push] at member
    split at member
    · exact h.parent_lt i ‹_› p member
    · have older := (Option.filter_eq_some_iff.1 member).2
      simp only [decide_eq_true_eq] at older
      exact Nat.lt_of_lt_of_le older (Nat.le_of_not_lt ‹_›)

def modify (h : Heap) (f : FrameId) (change : List Binding → List Binding) : Heap where
  frames := h.frames.modify f fun frame => { frame with bindings := change frame.bindings }
  parent_lt := by
    intro i inside p member
    rw [Array.size_modify] at inside
    rw [Array.getElem_modify] at member
    split at member <;> exact h.parent_lt i inside p member

/-- The nearest frame of a chain that binds a name. -/
def holder? (h : Heap) (f : FrameId) (key : Key) : Option FrameId :=
  if inside : f < h.frames.size then
    if h.frames[f].binds key then some f
    else
      match _found : h.frames[f].parent with
      | some p => holder? h p key
      | none => none
  else none
termination_by f
decreasing_by exact h.parent_lt f inside p (by simp [_found])

def get? (h : Heap) (f : FrameId) (key : Key) : Option Value := do
  let holder ← h.holder? f key
  (← h.frame? holder).find? key

def binds (h : Heap) (f : FrameId) (key : Key) : Bool := (h.frame? f).any (·.binds key)

def bind (h : Heap) (f : FrameId) (key : Key) (value : Value) : Heap :=
  h.modify f fun bindings => bindings ++ [(key, value)]

def rebind (h : Heap) (f : FrameId) (key : Key) (value : Value) : Heap :=
  h.modify f (Frame.replace key value)

/-- A heap with a name declared in a frame, unless the frame binds that name already. -/
def declare? (h : Heap) (f : FrameId) (key : Key) (value : Value) : Option Heap :=
  if h.binds f key then none else some (h.bind f key value)

/-- A heap with a value assigned to a name, seen from a frame, unless no frame of its chain binds the
name. -/
def assign? (h : Heap) (f : FrameId) (key : Key) (value : Value) : Option Heap :=
  (h.holder? f key).map fun holder => h.rebind holder key value

end Heap

end PhyLang
