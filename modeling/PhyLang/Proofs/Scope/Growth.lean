import PhyLang.Proofs.Scope.Laws

namespace PhyLang.Heap

/-- All frames of a heap are in a later one, with the parents and the names that they had. -/
def GrowsTo (before after : Heap) : Prop := ∃ more, before.Extends after more

/-- A frame lies inside of another one: its chain comes to that frame. -/
def Within (h : Heap) (g f : FrameId) : Prop := ∃ chain, h.Chain g chain ∧ f ∈ chain

variable {before middle after h : Heap} {f g p : FrameId} {key : Key}

theorem Extends.append {more later : FrameId → List Key} (first : before.Extends middle more)
    (second : middle.Extends after later) : before.Extends after fun g => more g ++ later g := by
  refine ⟨first.grown.trans second.grown, fun g frame found => ?_⟩
  obtain ⟨frame', found', parent', names'⟩ := first.frame g frame found
  obtain ⟨frame'', found'', parent'', names''⟩ := second.frame g frame' found'
  refine ⟨frame'', found'', parent''.trans parent', ?_⟩
  rw [names'', names', List.append_assoc]

namespace GrowsTo

theorem refl (h : Heap) : h.GrowsTo h := ⟨noNames, .refl h⟩

theorem trans (first : before.GrowsTo middle) (second : middle.GrowsTo after) : before.GrowsTo after := by
  obtain ⟨more, extended⟩ := first
  obtain ⟨later, extended'⟩ := second
  exact ⟨_, extended.append extended'⟩

theorem push (h : Heap) (parent : Option FrameId) : h.GrowsTo (h.push parent) := ⟨noNames, (Extends.refl h).push parent⟩

theorem bind (h : Heap) (f : FrameId) (key : Key) (value : Value) : h.GrowsTo (h.bind f key value) :=
  ⟨_, (Extends.refl h).bind f key value⟩

theorem rebind (h : Heap) (f : FrameId) (key : Key) (value : Value) : h.GrowsTo (h.rebind f key value) :=
  ⟨noNames, (Extends.refl h).rebind f key value⟩

theorem chain {frames : List FrameId} (grows : before.GrowsTo after) (led : before.Chain f frames) :
    after.Chain f frames := by
  obtain ⟨more, extended⟩ := grows
  induction led with
  | last found top =>
    obtain ⟨frame, found', parent, -⟩ := extended.frame _ _ found
    exact .last found' (parent.trans top)
  | inside found above _ ih =>
    obtain ⟨frame, found', parent, -⟩ := extended.frame _ _ found
    exact .inside found' (parent.trans above) ih

theorem binds (grows : before.GrowsTo after) (bound : before.binds f key) : after.binds f key := by
  obtain ⟨more, extended⟩ := grows
  cases found : before.frame? f with
  | none => simp [Heap.binds, found] at bound
  | some frame =>
    obtain ⟨frame', found', -, names⟩ := extended.frame f frame found
    rw [binds_iff_names found] at bound
    rw [binds_iff_names found', names]
    exact List.mem_append_left _ bound

end GrowsTo

theorem Within.grow (within : before.Within g f) (grows : before.GrowsTo after) : after.Within g f := by
  obtain ⟨chain, led, member⟩ := within
  exact ⟨chain, grows.chain led, member⟩

theorem within_self (present : f < h.size) : h.Within f f := by
  obtain ⟨chain, led⟩ := exists_chain present
  refine ⟨chain, led, ?_⟩
  cases led with
  | last | inside => exact List.mem_cons_self ..

theorem Chain.further {before frames : List FrameId} (led : h.Chain g (before ++ f :: frames)) :
    h.Chain f (f :: frames) := by
  generalize split : before ++ f :: frames = chain at led
  induction led generalizing before with
  | last found top =>
    obtain ⟨rfl, same⟩ := (List.append_eq_singleton_iff.mp split).resolve_right (by simp)
    cases same
    exact .last found top
  | inside found parent rest ih =>
    cases before with
    | nil =>
      cases split
      exact .inside found parent rest
    | cons p before =>
      cases split
      exact ih rfl

theorem Within.trans (first : h.Within g p) (second : h.Within p f) : h.Within g f := by
  obtain ⟨chain, led, member⟩ := first
  obtain ⟨later, led', member'⟩ := second
  obtain ⟨before, after, rfl⟩ := List.append_of_mem member
  rw [led.further.unique led'] at member'
  exact ⟨_, led, List.mem_append_right _ member'⟩

theorem Chain.lt_size {chain : List FrameId} (led : h.Chain g chain) : g < h.size := by
  cases led with
  | last found | inside found => exact frame?_lt found

theorem binds_lt_size (bound : h.binds f key) : f < h.size := by
  cases found : h.frame? f with
  | none => simp [binds, found] at bound
  | some frame => exact frame?_lt found

/-- A frame that binds a name is the first one for it. -/
theorem holder?_own (bound : h.binds f key) : h.holder? f key = some f := by
  obtain ⟨chain, led⟩ := exists_chain (binds_lt_size bound)
  rw [led.holder?_eq]
  cases led with
  | last | inside => exact List.find?_cons_of_pos bound

theorem frame?_push_new (present : p < h.size) : (h.push (some p)).frame? h.size = some ⟨some p, []⟩ := by
  rw [frame?_push, if_pos rfl, Option.filter_some, if_pos (decide_eq_true present)]

/-- A new frame lies inside of whatever its parent lies inside of. -/
theorem Within.push (within : h.Within p f) : (h.push (some p)).Within h.size f := by
  obtain ⟨chain, led, member⟩ := within
  exact ⟨_, .inside (frame?_push_new led.lt_size) rfl ((GrowsTo.push h _).chain led), List.mem_cons_of_mem _ member⟩

theorem get?_push_old {parent : Option FrameId} (present : g < h.size) (key : Key) :
    (h.push parent).get? g key = h.get? g key := by
  obtain ⟨chain, led⟩ := exists_chain present
  have old : ∀ p ∈ chain, (h.push parent).frame? p = h.frame? p :=
    fun p member => frame?_push_old ((led.le p member).trans_lt present)
  have binds : ∀ p ∈ chain, (h.push parent).binds p key = h.binds p key :=
    fun p member => by rw [Heap.binds, Heap.binds, old p member]
  rw [get?_eq, get?_eq, ((GrowsTo.push h parent).chain led).holder?_eq, led.holder?_eq, List.find?_congr binds]
  cases holder : chain.find? (h.binds · key) with
  | none => rfl
  | some p => rw [Option.bind_some, Option.bind_some, valueIn?, valueIn?, old p (List.mem_of_find?_eq_some holder)]

/-- In a new frame every name has the value that it has in the parent. -/
theorem get?_push_new (present : p < h.size) (key : Key) : (h.push (some p)).get? h.size key = h.get? p key := by
  obtain ⟨chain, led⟩ := exists_chain present
  have found := frame?_push_new present
  have above := (GrowsTo.push h (some p)).chain led
  have free : (h.push (some p)).binds h.size key = false := by simp [Heap.binds, found, Frame.binds]
  rw [← get?_push_old present, get?_eq, get?_eq, (Chain.inside found rfl above).holder?_eq, above.holder?_eq,
    List.find?_cons_of_neg (by simp [free])]

/-- A name that a frame binds is hidden from another frame inside of it by one in between. -/
def Hides (h : Heap) (g f : FrameId) (key : Key) : Prop := ∃ p, h.Within g p ∧ f < p ∧ h.binds p key

theorem Within.leadsTo (within : h.Within g f) (seen : ¬h.Hides g f key) : h.LeadsTo g f key := by
  obtain ⟨chain, led, member⟩ := within
  obtain ⟨before, after, rfl⟩ := List.append_of_mem member
  refine ⟨before, after, led, fun p nearer => ?_⟩
  rw [Bool.eq_false_iff]
  intro binds
  have older := (List.pairwise_append.mp led.older).2.2 p nearer f (List.mem_cons_self ..)
  exact seen ⟨p, ⟨_, led, List.mem_append_left _ nearer⟩, older, binds⟩

/-- A binding is shared by all frames inside of its frame that it is not hidden from: there the name stands for it,
has its value, and is assigned to by changing it. -/
theorem Within.shares (within : h.Within g f) (seen : ¬h.Hides g f key) (binds : h.binds f key) :
    h.Resolves g key f ∧ h.get? g key = h.valueIn? f key ∧
      ∀ value, h.assign? g key value = some (h.rebind f key value) := by
  have resolves : h.Resolves g key f := ⟨within.leadsTo seen, binds⟩
  have found := resolves_iff.mp resolves
  exact ⟨resolves, by rw [get?_eq, found, Option.bind_some], fun value => by rw [assign?, found, Option.map_some]⟩

end PhyLang.Heap
