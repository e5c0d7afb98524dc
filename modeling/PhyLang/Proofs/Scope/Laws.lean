import PhyLang.Proofs.Interpreter.Outcome
import PhyLang.Proofs.Scope.Chains

namespace PhyLang

section Bindings

variable {key other : Key} {value : Value} {bindings : List Binding}

/-- Replacing the value of a name changes what the name is bound to, if it is bound, and nothing else. -/
theorem Frame.find?_replace : ((Frame.replace key value bindings).find? (·.1 == other)).map (·.2) =
    ((bindings.find? (·.1 == other)).map (·.2)).map fun old => if key = other then value else old := by
  induction bindings with
  | nil => rfl
  | cons binding later ih =>
    have replaced : Frame.replace key value (binding :: later) =
      (if binding.1 == key then (key, value) else binding) :: Frame.replace key value later := rfl
    rw [replaced, List.find?_cons, List.find?_cons]
    by_cases found : binding.1 = key
    · subst found
      simp only [beq_self_eq_true, if_true]
      by_cases same : binding.1 = other
      · simp [same]
      · simp only [beq_false_of_ne same]
        exact ih
    · simp only [beq_false_of_ne found, Bool.false_eq_true, if_false]
      by_cases same : binding.1 = other
      · subst same
        simp [Ne.symm found]
      · simp only [beq_false_of_ne same]
        exact ih

theorem Frame.find?_add : ((bindings ++ [(key, value)]).find? (·.1 == other)).map (·.2) =
    ((bindings.find? (·.1 == other)).map (·.2)).or (if key = other then some value else none) := by
  rw [List.find?_append]
  cases bindings.find? (·.1 == other) with
  | some binding => rfl
  | none =>
    by_cases same : key = other
    · simp [same]
    · simp [same]

end Bindings

/-- A declaration of a name that can be one. -/
theorem Run.declare_eq {m : Machine} {name : Json} {key : Key} (keyed : Key.ofJson? name = some key) (f : FrameId)
    (value : Value) (loc : Option Loc) :
    declare f name value loc m = (if m.heap.binds f key then fail (.declaredTwice name.shown) loc
      else modify fun m => { m with heap := m.heap.bind f key value } : Run Unit) m := by
  unfold declare keyOf
  rw [keyed]
  rfl

namespace Heap

variable {h h' : Heap} {f g : FrameId} {key other : Key} {value : Value}

theorem valueIn?_rebind : (h.rebind f key value).valueIn? g other =
    (h.valueIn? g other).map fun old => if f = g ∧ key = other then value else old := by
  unfold valueIn? rebind
  rw [frame?_modify]
  cases h.frame? g with
  | none => rfl
  | some frame =>
    by_cases here : f = g
    · simp only [Option.map_some, Option.bind_some, here, if_true, true_and]
      exact Frame.find?_replace
    · simp only [Option.map_some, Option.bind_some, here, if_false, false_and, Option.map_id_fun', id]

theorem valueIn?_bind (present : f < h.size) : (h.bind f key value).valueIn? g other =
    (h.valueIn? g other).or (if f = g ∧ key = other then some value else none) := by
  unfold valueIn? bind
  rw [frame?_modify]
  by_cases here : f = g
  · subst here
    obtain ⟨frame, found⟩ := frame?_of_lt present
    simp only [found, Option.map_some, Option.bind_some, if_true, true_and]
    exact Frame.find?_add
  · cases h.frame? g with
    | none => simp [here]
    | some frame => simp [here]

theorem binds_rebind : (h.rebind f key value).binds g other = h.binds g other := by
  rw [binds_eq_isSome, binds_eq_isSome, valueIn?_rebind, Option.isSome_map]

theorem binds_bind (present : f < h.size) :
    (h.bind f key value).binds g other ↔ h.binds g other ∨ f = g ∧ key = other := by
  rw [binds_eq_isSome, binds_eq_isSome, valueIn?_bind present, Option.isSome_or, Bool.or_eq_true]
  by_cases here : f = g ∧ key = other
  · simp [here]
  · simp [here]

theorem not_binds_bind (present : f < h.size) :
    (h.bind f key value).binds g other = false ↔ h.binds g other = false ∧ ¬(f = g ∧ key = other) := by
  rw [← Bool.not_eq_true, ← Bool.not_eq_true, binds_bind present, not_or]

theorem chain_rebind {chain : List FrameId} : (h.rebind f key value).Chain g chain ↔ h.Chain g chain :=
  chain_congr (parents_modify h f _)

theorem chain_bind {chain : List FrameId} : (h.bind f key value).Chain g chain ↔ h.Chain g chain :=
  chain_congr (parents_modify h f _)

theorem holder?_rebind : (h.rebind f key value).holder? g other = h.holder? g other := by
  have resolves : ∀ holder, (h.rebind f key value).Resolves g other holder ↔ h.Resolves g other holder := by
    intro holder
    simp only [Resolves, LeadsTo, chain_rebind, binds_rebind]
  exact Option.ext fun holder => resolves_iff.symm.trans ((resolves holder).trans resolves_iff)

theorem leadsTo_bind (present : f < h.size) :
    (h.bind f key value).LeadsTo g f key ↔ h.LeadsTo g f key := by
  constructor
  · rintro ⟨before, after, led, free⟩
    exact ⟨before, after, chain_bind.mp led, fun p member => ((not_binds_bind present).mp (free p member)).1⟩
  · rintro ⟨before, after, led, free⟩
    refine ⟨before, after, chain_bind.mpr led, fun p member => (not_binds_bind present).mpr ⟨free p member, ?_⟩⟩
    -- The frame comes once in the chain, so it is not among those before it.
    rintro ⟨rfl, -⟩
    exact lt_irrefl f ((List.pairwise_append.mp led.older).2.2 f member f (List.mem_cons_self ..))

/-- A name that is not the declared one, or is seen from where another binding comes first, is looked up as
before. -/
theorem holder?_bind_other (present : f < h.size) (apart : ¬(other = key ∧ h.LeadsTo g f key)) :
    (h.bind f key value).holder? g other = h.holder? g other := by
  have resolves : ∀ holder, (h.bind f key value).Resolves g other holder ↔ h.Resolves g other holder := by
    intro holder
    constructor
    · rintro ⟨⟨before, after, led, free⟩, binds⟩
      have freeBefore := fun p member => ((not_binds_bind present).mp (free p member)).1
      rcases (binds_bind present).mp binds with old | ⟨rfl, rfl⟩
      · exact ⟨⟨before, after, chain_bind.mp led, freeBefore⟩, old⟩
      · exact absurd ⟨rfl, before, after, chain_bind.mp led, freeBefore⟩ apart
    · rintro ⟨⟨before, after, led, free⟩, binds⟩
      refine ⟨⟨before, after, chain_bind.mpr led, fun p member => (not_binds_bind present).mpr ⟨free p member, ?_⟩⟩,
        (binds_bind present).mpr (.inl binds)⟩
      -- If the frame came before the holder, the chain would lead to it.
      rintro ⟨rfl, rfl⟩
      obtain ⟨earlier, later, rfl⟩ := List.append_of_mem member
      refine apart ⟨rfl, earlier, later ++ holder :: after, by simpa using led, fun q inside => ?_⟩
      exact free q (List.mem_append_left _ inside)
  exact Option.ext fun holder => resolves_iff.symm.trans ((resolves holder).trans resolves_iff)

/-- Two names, seen from two frames, stand for one binding. -/
def SameBinding (h : Heap) (g : FrameId) (other : Key) (f : FrameId) (key : Key) : Prop :=
  other = key ∧ ∃ holder, h.Resolves g other holder ∧ h.Resolves f key holder

/-- What is done to frames: one is made, with a parent or without, or a name is declared or assigned. -/
inductive Operation
  | create (parent : Option FrameId)
  | declare (f : FrameId) (key : Key) (value : Value)
  | assign (f : FrameId) (key : Key) (value : Value)

/-- Whether the frames of which an operation speaks are there. -/
def Operation.IsOn (h : Heap) : Operation → Prop
  | .create parent => ∀ p ∈ parent, p < h.size
  | .declare f _ _ | .assign f _ _ => f < h.size

/-- The heap after an operation. A declaration or assignment that fails leaves it as it is. -/
def perform (h : Heap) : Operation → Heap
  | .create parent => h.push parent
  | .declare f key value => (h.declare? f key value).getD h
  | .assign f key value => (h.assign? f key value).getD h

/-- Heaps that arise from operations, one after the other, of which any may fail. -/
inductive Arises : Heap → Prop
  | empty : Arises .empty
  | step {h : Heap} {operation : Operation} (arises : Arises h) (present : operation.IsOn h) :
      Arises (h.perform operation)

/-- A step of a run does to the heap what an operation does: it ends with the heap that comes out, or, if none
does, it fails and leaves the machine as it was. -/
def Performs (m : Machine) (step : Run Unit) : Option Heap → Prop
  | some after => step m = .ok () { m with heap := after }
  | none => ∃ e, step m = .error (.error e) m

/-- No frame binds a name twice. -/
def HasDistinctNames (h : Heap) : Prop := ∀ g frame, h.frame? g = some frame → frame.names.Nodup

/-- The laws of the frames of a heap. -/
structure IsLawful (h : Heap) : Prop where
  distinct : h.HasDistinctNames
  /-- Each frame has one chain, along which the frames are older and older until one has no parent. -/
  chains : ∀ g < h.size, ∃ chain, h.Chain g chain ∧ chain.Pairwise (· > ·) ∧ ∀ other, h.Chain g other → other = chain
  /-- A name can be assigned to where it has a value. -/
  assignable : ∀ g key value, (h.assign? g key value).isSome ↔ (h.get? g key).isSome
  /-- Assigning changes no names, and gives the value to all who see the same binding, and to nobody else. -/
  assigned : ∀ f key value h', h.assign? f key value = some h' → h.Extends h' noNames ∧
    ∀ g other, (h.SameBinding g other f key → h'.get? g other = some value) ∧
      (¬h.SameBinding g other f key → h'.get? g other = h.get? g other)
  /-- Declaring adds one name. The new binding is what all those see whose chain comes to it before any other
  binding of the name, and nobody else sees a change. -/
  declared : ∀ f key value h', f < h.size → h.declare? f key value = some h' → h.Extends h' (namesIn f [key]) ∧
    ∀ g other, (other = key ∧ h'.Resolves g other f ↔ other = key ∧ h.LeadsTo g f key) ∧
      (other = key ∧ h.LeadsTo g f key → h'.get? g other = some value) ∧
      (¬(other = key ∧ h.LeadsTo g f key) → h'.get? g other = h.get? g other)
  /-- Declaring a name in a run declares it in the heap, or fails. -/
  declares : ∀ f key value (m : Machine) name loc, m.heap = h → Key.ofJson? name = some key →
    Performs m (Run.declare f name value loc) (h.declare? f key value)
  /-- Assigning to a name in a run assigns to it in the heap, or fails. -/
  assigns : ∀ f key value (m : Machine) name missing loc, m.heap = h → Key.ofJson? name = some key →
    Performs m (Run.assign f name value missing loc) (h.assign? f key value)
  /-- Looking up a name that has no value fails. -/
  getFails : ∀ f key (m : Machine) name loc, m.heap = h → Key.ofJson? name = some key → Run.reserved? key = none →
    h.get? f key = none → ∃ e, Run.lookup f name loc m = .error (.error e) m

theorem declare?_eq_some : h.declare? f key value = some h' ↔ h.binds f key = false ∧ h' = h.bind f key value := by
  unfold declare?
  cases h.binds f key with
  | true => simp
  | false => simp [eq_comm]

theorem binds_iff_names {frame : Frame} (found : h.frame? f = some frame) : h.binds f key ↔ key ∈ frame.names := by
  simp [binds, found, Frame.binds, Frame.names]

theorem HasDistinctNames.push (distinct : h.HasDistinctNames) (parent : Option FrameId) :
    (h.push parent).HasDistinctNames := by
  intro g frame found
  rw [frame?_push] at found
  split at found
  · cases found
    exact List.nodup_nil
  · exact distinct g frame found

theorem HasDistinctNames.declare (distinct : h.HasDistinctNames) (declared : h.declare? f key value = some h') :
    h'.HasDistinctNames := by
  intro g frame found
  obtain ⟨free, rfl⟩ := declare?_eq_some.mp declared
  obtain ⟨old, present, -, bindings⟩ := frame?_of_modify found
  unfold Frame.names
  rw [bindings]
  split
  next here =>
    subst here
    rw [List.map_append]
    have new : key ∉ old.names := by
      rw [← binds_iff_names present, free]
      simp
    exact List.nodup_append.mpr ⟨distinct f old present, List.nodup_singleton _, by
      rintro name member _ last rfl
      cases List.mem_singleton.mp last
      exact new member⟩
  next => exact distinct g old present

theorem HasDistinctNames.assign (distinct : h.HasDistinctNames) (assigned : h.assign? f key value = some h') :
    h'.HasDistinctNames := by
  intro g frame found
  obtain ⟨holder, -, rfl⟩ := Option.map_eq_some_iff.mp assigned
  obtain ⟨old, present, -⟩ := frame?_of_modify found
  obtain ⟨frame', found', -, names⟩ := ((Extends.refl h).rebind holder key value).frame g old present
  cases found.symm.trans found'
  rw [names, noNames, List.append_nil]
  exact distinct g old present

theorem HasDistinctNames.perform (distinct : h.HasDistinctNames) (operation : Operation) :
    (h.perform operation).HasDistinctNames := by
  cases operation with
  | create parent => exact distinct.push parent
  | declare f key value =>
    cases declared : h.declare? f key value with
    | none => simpa only [Heap.perform, declared, Option.getD_none] using distinct
    | some h' => simpa only [Heap.perform, declared, Option.getD_some] using distinct.declare declared
  | assign f key value =>
    cases assigned : h.assign? f key value with
    | none => simpa only [Heap.perform, assigned, Option.getD_none] using distinct
    | some h' => simpa only [Heap.perform, assigned, Option.getD_some] using distinct.assign assigned

theorem Arises.distinct (arises : h.Arises) : h.HasDistinctNames := by
  induction arises with
  | empty =>
    intro g frame found
    simp [Heap.empty, frame?] at found
  | @step h operation _ _ ih => exact ih.perform operation

/-- A name has a value where some frame of the chain binds it. -/
theorem isSome_get? (h : Heap) (g : FrameId) (key : Key) : (h.get? g key).isSome ↔ (h.holder? g key).isSome := by
  rw [get?_eq]
  cases found : h.holder? g key with
  | none => rfl
  | some holder =>
    have binds := (resolves_iff.mpr found).2
    rw [binds_eq_isSome] at binds
    simpa using binds

theorem sameBinding_iff {holder : FrameId} (found : h.holder? f key = some holder) :
    h.SameBinding g other f key ↔ other = key ∧ h.holder? g other = some holder := by
  constructor
  · rintro ⟨rfl, same, there, here⟩
    cases found.symm.trans (resolves_iff.mp here)
    exact ⟨rfl, resolves_iff.mp there⟩
  · rintro ⟨rfl, there⟩
    exact ⟨rfl, holder, resolves_iff.mpr there, resolves_iff.mpr found⟩

theorem get?_assign (assigned : h.assign? f key value = some h') :
    (h.SameBinding g other f key → h'.get? g other = some value) ∧
      (¬h.SameBinding g other f key → h'.get? g other = h.get? g other) := by
  obtain ⟨holder, found, rfl⟩ := Option.map_eq_some_iff.mp assigned
  rw [sameBinding_iff found, get?_eq, get?_eq, holder?_rebind]
  constructor
  · rintro ⟨rfl, there⟩
    have binds := (resolves_iff.mpr there).2
    rw [binds_eq_isSome] at binds
    obtain ⟨old, bound⟩ := Option.isSome_iff_exists.mp binds
    rw [there, Option.bind_some, valueIn?_rebind, bound, Option.map_some, if_pos ⟨rfl, rfl⟩]
  · intro apart
    cases there : h.holder? g other with
    | none => rfl
    | some holder' =>
      have elsewhere : ¬(holder = holder' ∧ key = other) := by
        rintro ⟨rfl, rfl⟩
        exact apart ⟨rfl, there⟩
      simp only [Option.bind_some, valueIn?_rebind, if_neg elsewhere, Option.map_id_fun', id]

/-- What a declaration binds is looked up exactly from where the chain leads to the frame. -/
theorem resolves_bind (present : f < h.size) :
    other = key ∧ (h.bind f key value).Resolves g other f ↔ other = key ∧ h.LeadsTo g f key := by
  constructor
  · rintro ⟨rfl, leads, -⟩
    exact ⟨rfl, (leadsTo_bind present).mp leads⟩
  · rintro ⟨rfl, leads⟩
    exact ⟨rfl, (leadsTo_bind present).mpr leads, (binds_bind present).mpr (.inr ⟨rfl, rfl⟩)⟩

theorem get?_declare (present : f < h.size) (declared : h.declare? f key value = some h') :
    (other = key ∧ h.LeadsTo g f key → h'.get? g other = some value) ∧
      (¬(other = key ∧ h.LeadsTo g f key) → h'.get? g other = h.get? g other) := by
  obtain ⟨free, rfl⟩ := declare?_eq_some.mp declared
  constructor
  · intro leads
    obtain ⟨rfl, resolves⟩ : other = key ∧ (h.bind f key value).Resolves g other f := (resolves_bind present).mpr leads
    have unbound : h.valueIn? f other = none := by
      rw [binds_eq_isSome] at free
      simpa using free
    rw [get?_eq, resolves_iff.mp resolves, Option.bind_some, valueIn?_bind present, unbound, if_pos ⟨rfl, rfl⟩]
    rfl
  · intro apart
    rw [get?_eq, get?_eq, holder?_bind_other present apart]
    cases there : h.holder? g other with
    | none => rfl
    | some holder =>
      have bound := (resolves_iff.mpr there).2
      rw [binds_eq_isSome] at bound
      obtain ⟨old, is⟩ := Option.isSome_iff_exists.mp bound
      rw [Option.bind_some, Option.bind_some, valueIn?_bind present, is]
      rfl

theorem declare_performs {m : Machine} {name : Json} (loc : Option Loc) (on : m.heap = h)
    (keyed : Key.ofJson? name = some key) :
    Performs m (Run.declare f name value loc) (h.declare? f key value) := by
  subst on
  have step := Run.declare_eq keyed f value loc (m := m)
  unfold declare?
  by_cases bound : m.heap.binds f key = true
  · rw [if_pos bound] at step ⊢
    exact ⟨_, step⟩
  · rw [if_neg bound] at step ⊢
    exact step

theorem assign_performs {m : Machine} {name : Json} (missing : String → Cause) (loc : Option Loc) (on : m.heap = h)
    (keyed : Key.ofJson? name = some key) :
    Performs m (Run.assign f name value missing loc) (h.assign? f key value) := by
  subst on
  have step := Run.assign_eq keyed f value missing loc (m := m)
  unfold assign?
  cases found : m.heap.holder? f key with
  | some holder =>
    rw [found] at step
    exact step
  | none =>
    rw [found] at step
    exact ⟨_, step⟩

/-- Frames that arise from operations obey the laws. -/
theorem Arises.isLawful (arises : h.Arises) : h.IsLawful where
  distinct := arises.distinct
  chains g present := by
    obtain ⟨chain, led⟩ := exists_chain present
    exact ⟨chain, led, led.older, fun other also => led.unique also⟩
  assignable g key value := by rw [isSome_get?, assign?, Option.isSome_map]
  assigned f key value h' done := by
    obtain ⟨holder, -, rfl⟩ := Option.map_eq_some_iff.mp done
    exact ⟨(Extends.refl h).rebind holder key value, fun g other => get?_assign done⟩
  declared f key value h' present done := by
    obtain ⟨-, rfl⟩ := declare?_eq_some.mp done
    exact ⟨(Extends.refl h).bind f key value, fun g other => ⟨resolves_bind present, get?_declare present done⟩⟩
  declares f key value m name loc := declare_performs loc
  assigns f key value m name missing loc := assign_performs missing loc
  getFails f key m name loc on keyed free none := by
    subst on
    rw [Run.lookup_eq keyed free, none]
    exact ⟨_, rfl⟩

/-- Three frames, one inside the other, of which the outer two bind a name. It is declared in one of them once
more, in vain, and assigned from the innermost. -/
theorem isLawful_shadowed : ∃ h : Heap, h.Arises ∧ h.IsLawful ∧
    h.frames = #[⟨none, [(.text "x", .int 1)]⟩, ⟨some 0, [(.text "x", .int 7)]⟩, ⟨some 1, []⟩] ∧
    h.SameBinding 2 (.text "x") 1 (.text "x") ∧ ¬h.SameBinding 2 (.text "x") 0 (.text "x") := by
  let x := Key.text "x"
  let framed := ((empty.perform (.create none)).perform (.create (some 0))).perform (.create (some 1))
  let bound := (framed.perform (.declare 0 x (.int 1))).perform (.declare 1 x (.int 2))
  let before := bound.perform (.declare 1 x (.int 5))
  have framedArises : framed.Arises := .step (.step (.step .empty (by simp [Operation.IsOn]))
    (by simp [Operation.IsOn, perform, empty, push, size])) (by simp [Operation.IsOn, perform, empty, push, size])
  have beforeArises : before.Arises := .step (.step (.step framedArises (by decide : (0 : Nat) < framed.size))
    (by decide : 1 < (framed.perform _).size)) (by decide : 1 < bound.size)
  have arises : (before.perform (.assign 2 x (.int 7))).Arises := .step beforeArises (by decide : 2 < before.size)
  have found : before.holder? 2 x = some 1 := by decide +kernel
  have assigned : before.perform (.assign 2 x (.int 7)) = before.rebind 1 x (.int 7) := by
    simp only [perform, assign?, found, Option.map_some, Option.getD_some]
  rw [assigned] at arises
  refine ⟨_, arises, arises.isLawful, by cbv, ?_, ?_⟩
  · have inner : (before.rebind 1 x (.int 7)).holder? 1 x = some 1 := by decide +kernel
    exact (sameBinding_iff inner).mpr ⟨rfl, by decide +kernel⟩
  · have outer : (before.rebind 1 x (.int 7)).holder? 0 x = some 0 := by decide +kernel
    intro same
    exact absurd ((sameBinding_iff outer).mp same).2 (by decide +kernel)

end Heap

end PhyLang
