import PhyLang.Proofs.Scope.Names

namespace PhyLang.Heap

/-- The frames from a given one along parents, up to one without a parent. -/
inductive Chain (h : Heap) : FrameId → List FrameId → Prop
  | last {f : FrameId} {frame : Frame} (found : h.frame? f = some frame) (top : frame.parent = none) : Chain h f [f]
  | inside {f p : FrameId} {frame : Frame} {later : List FrameId} (found : h.frame? f = some frame)
      (parent : frame.parent = some p) (rest : Chain h p later) : Chain h f (f :: later)

/-- The chain of a frame comes to another one, before any frame that binds a name. -/
def LeadsTo (h : Heap) (g f : FrameId) (key : Key) : Prop :=
  ∃ before after, h.Chain g (before ++ f :: after) ∧ ∀ p ∈ before, h.binds p key = false

/-- A name, seen from a frame, stands for what a frame binds to it. -/
def Resolves (h : Heap) (g : FrameId) (key : Key) (holder : FrameId) : Prop :=
  h.LeadsTo g holder key ∧ h.binds holder key

/-- The value that a frame itself binds to a name. -/
def valueIn? (h : Heap) (f : FrameId) (key : Key) : Option Value := (h.frame? f).bind (Frame.find? · key)

variable {h h' : Heap} {f g p : FrameId} {key : Key} {chain : List FrameId}

theorem frame?_of_lt (present : f < h.size) : ∃ frame, h.frame? f = some frame :=
  ⟨h.frames[f], Array.getElem?_eq_getElem present⟩

theorem parent_older {frame : Frame} (found : h.frame? f = some frame) (parent : frame.parent = some p) : p < f := by
  obtain ⟨inside, rfl⟩ := Array.getElem?_eq_some_iff.mp found
  exact h.parent_lt f inside p parent

/-- Every chain of parents ends. -/
theorem exists_chain (present : f < h.size) : ∃ chain, h.Chain f chain := by
  induction f using Nat.strong_induction_on with
  | _ f ih =>
    obtain ⟨frame, found⟩ := frame?_of_lt present
    cases parent : frame.parent with
    | none => exact ⟨[f], .last found parent⟩
    | some p =>
      have older := parent_older found parent
      obtain ⟨later, rest⟩ := ih p older (older.trans present)
      exact ⟨f :: later, .inside found parent rest⟩

theorem Chain.unique {other : List FrameId} (led : h.Chain f chain) (also : h.Chain f other) : other = chain := by
  induction led generalizing other with
  | last found top =>
    cases also with
    | last => rfl
    | inside found' parent =>
      cases found.symm.trans found'
      cases top.symm.trans parent
  | inside found parent _ ih =>
    cases also with
    | last found' top =>
      cases found.symm.trans found'
      cases parent.symm.trans top
    | inside found' parent' rest =>
      cases found.symm.trans found'
      cases parent.symm.trans parent'
      rw [ih rest]

theorem Chain.le (led : h.Chain f chain) : ∀ g ∈ chain, g ≤ f := by
  induction led with
  | last => simp
  | inside found parent _ ih =>
    have older := parent_older found parent
    exact List.forall_mem_cons.mpr ⟨le_rfl, fun g member => (ih g member).trans older.le⟩

/-- Along a chain the frames are older and older, so no frame comes twice. -/
theorem Chain.older (led : h.Chain f chain) : chain.Pairwise (· > ·) := by
  induction led with
  | last => exact List.pairwise_singleton _ _
  | inside found parent rest ih =>
    have older := parent_older found parent
    exact List.pairwise_cons.mpr ⟨fun g member => (rest.le g member).trans_lt older, ih⟩

/-- A name is looked up along the chain of a frame. -/
theorem Chain.holder?_eq (led : h.Chain f chain) (key : Key) : h.holder? f key = chain.find? (h.binds · key) := by
  induction led with
  | @last f frame found top =>
    obtain ⟨inside, rfl⟩ := Array.getElem?_eq_some_iff.mp found
    have itself : h.binds f key = h.frames[f].binds key := by simp [binds, found]
    rw [holder?, dif_pos inside, List.find?_cons, itself]
    cases h.frames[f].binds key with
    | true => rfl
    | false =>
      simp only [Bool.false_eq_true, if_false]
      split
      next p parent => cases top.symm.trans parent
      next => rfl
  | @inside f p frame later found parent _ ih =>
    obtain ⟨inside, rfl⟩ := Array.getElem?_eq_some_iff.mp found
    have itself : h.binds f key = h.frames[f].binds key := by simp [binds, found]
    rw [holder?, dif_pos inside, List.find?_cons, itself]
    cases h.frames[f].binds key with
    | true => rfl
    | false =>
      simp only [Bool.false_eq_true, if_false]
      split
      next q parent' =>
        cases parent.symm.trans parent'
        exact ih
      next none => cases parent.symm.trans none

theorem resolves_iff {holder : FrameId} : h.Resolves g key holder ↔ h.holder? g key = some holder := by
  constructor
  · rintro ⟨⟨before, after, led, free⟩, binds⟩
    rw [led.holder?_eq key]
    exact List.find?_eq_some_iff_append.mpr ⟨binds, before, after, rfl, fun p member => by simp [free p member]⟩
  · intro found
    have present : g < h.size := by
      rw [holder?] at found
      split at found
      next inside => exact inside
      next => cases found
    obtain ⟨chain, led⟩ := exists_chain present
    rw [led.holder?_eq key] at found
    obtain ⟨binds, before, after, rfl, free⟩ := List.find?_eq_some_iff_append.mp found
    exact ⟨⟨before, after, led, fun p member => by simpa using free p member⟩, binds⟩

theorem get?_eq (h : Heap) (g : FrameId) (key : Key) : h.get? g key = (h.holder? g key).bind (h.valueIn? · key) := rfl

theorem binds_eq_isSome (h : Heap) (f : FrameId) (key : Key) : h.binds f key = (h.valueIn? f key).isSome := by
  unfold binds valueIn?
  cases h.frame? f with
  | none => rfl
  | some frame =>
    rw [Bool.eq_iff_iff]
    simp [Frame.binds, Frame.find?]

/-- Chains are told by the parents of frames alone. -/
theorem Chain.congr (parents : ∀ f, (h'.frame? f).map Frame.parent = (h.frame? f).map Frame.parent)
    (led : h.Chain f chain) : h'.Chain f chain := by
  induction led with
  | @last f frame found top =>
    obtain ⟨frame', found', same⟩ := Option.map_eq_some_iff.mp ((parents f).trans (congrArg _ found))
    exact .last found' (same.trans top)
  | @inside f p frame later found parent _ ih =>
    obtain ⟨frame', found', same⟩ := Option.map_eq_some_iff.mp ((parents f).trans (congrArg _ found))
    exact .inside found' (same.trans parent) ih

theorem chain_congr (parents : ∀ f, (h'.frame? f).map Frame.parent = (h.frame? f).map Frame.parent) :
    h'.Chain f chain ↔ h.Chain f chain :=
  ⟨.congr fun f => (parents f).symm, .congr parents⟩

theorem parents_modify (h : Heap) (f : FrameId) (change : List Binding → List Binding) (g : FrameId) :
    ((h.modify f change).frame? g).map Frame.parent = (h.frame? g).map Frame.parent := by
  rw [frame?_modify, Option.map_map]
  congr 1
  funext frame
  simp only [Function.comp_apply]
  split <;> rfl

end PhyLang.Heap
