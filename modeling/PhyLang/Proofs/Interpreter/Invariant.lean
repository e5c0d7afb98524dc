import PhyLang.Proofs.Ast.Within
import PhyLang.Proofs.Interpreter.Outcome
import PhyLang.Proofs.Scope.Frames
import PhyLang.Proofs.Value.Plain

namespace PhyLang

/-- A cause that arises in the language itself, inside of a run. -/
def Cause.IsOwn : Cause → Prop
  | .host _ _ | .returned _ => False
  | _ => True

/-- What runs keep. Code belongs to a place, which is where its errors arise; the number that goes with a
value or a frame is that of the frames there are. Nothing is asked of the shape of trees, so runs of trees
that are no programs keep it too. -/
structure Invariant (Place : Type) where
  /-- What holds of the frames. -/
  heap : Heap → Prop
  /-- What holds of every value that turns up. -/
  value : Nat → Value → Prop
  /-- The frames that code may look names up from. -/
  reads : Nat → FrameId → Prop
  /-- The frames that code may declare names in. -/
  writes : Nat → FrameId → Prop
  /-- The code of a place. -/
  node : Place → Node → Prop
  /-- The locations of a place. -/
  loc : Place → Option Loc → Prop
  /-- The errors of the code of a place. -/
  error : Place → RuntimeError → Prop
  /-- The errors that come out of a call of a function. -/
  thrown : Value → RuntimeError → Prop
  value_mono {n k : Nat} {v : Value} (le : n ≤ k) : value n v → value k v
  reads_mono {n k : Nat} {f : FrameId} (le : n ≤ k) : reads n f → reads k f
  writes_mono {n k : Nat} {f : FrameId} (le : n ≤ k) : writes n f → writes k f
  reads_of_writes {n : Nat} {f : FrameId} : writes n f → reads n f
  /-- A new frame may be written to. -/
  push {h : Heap} {parent : FrameId} : heap h → reads h.size parent →
    heap (h.push (some parent)) ∧ writes (h.size + 1) h.size
  bind {h : Heap} {f : FrameId} {key : Key} {v : Value} : heap h → writes h.size f → h.binds f key = false →
    value h.size v → heap (h.bind f key v)
  rebind {h : Heap} {f holder : FrameId} {key : Key} {v : Value} : heap h → reads h.size f →
    h.holder? f key = some holder → value h.size v → heap (h.rebind holder key v)
  get {h : Heap} {f : FrameId} {key : Key} {v : Value} : heap h → reads h.size f → h.get? f key = some v →
    value h.size v
  plain {n : Nat} {v : Value} : v.IsPlain → value n v
  signal {n : Nat} {v : Value} : value n (.signal v) → value n v
  closure {n : Nat} {place : Place} {name : Json} {params : List Json} {body : List Node} {f : FrameId}
    {at_ : Option Loc} : node place (.fnDecl name params body at_) → writes n f →
    value n (.fn ⟨name, params, body, f, at_⟩)
  captured {n : Nat} {c : Closure} : value n (.fn c) → reads n c.frame
  /-- The body of a function is code of a place, whose errors are those of its calls. -/
  body {n : Nat} {c : Closure} : value n (.fn c) →
    ∃ place, (∀ statement ∈ c.body, node place statement) ∧ loc place c.loc ∧ ∀ e, error place e → thrown (.fn c) e
  native {n : Nat} {function : Native} {kind message : String} : value n (.native function) →
    function.action = .fail kind message → thrown (.native function) (.raised (.host kind message) none)
  child {place : Place} {parent inner : Node} : node place parent → inner ∈ parent.children → node place inner
  located {place : Place} {code : Node} : node place code → code ≠ .absent → loc place code.loc?
  raised {place : Place} {cause : Cause} {at_ : Option Loc} : cause.IsOwn → loc place at_ →
    error place (.raised cause at_)
  inCall {n : Nat} {place : Place} {callee : Node} {args : List Node} {at_ : Option Loc} {function : Value}
    {name : String} {e : RuntimeError} : node place (.call callee args at_) → value n function →
    Run.calleeName? function = some name → thrown function e → error place (.inCall name e at_)

/-- A run that keeps an invariant: it ends with as many frames or more, with a value of a kind or an error of
a kind, and what holds of the frames holds at its end. -/
def Invariant.Keeps {Place α : Type} (I : Invariant Place) (thrown : RuntimeError → Prop) (good : Nat → α → Prop)
    (n : Nat) : EStateM.Result Stop Machine α → Prop
  | .ok a m => I.heap m.heap ∧ n ≤ m.heap.size ∧ good m.heap.size a
  | .error stop m => I.heap m.heap ∧ n ≤ m.heap.size ∧ ∀ e, stop = .error e → thrown e

namespace Invariant

variable {Place α β : Type} {I : Invariant Place} {place : Place} {thrown : RuntimeError → Prop}
  {good : Nat → α → Prop} {n : Nat} {m : Machine}

theorem Keeps.bind {fine : Nat → β → Prop} {run : Run α} {next : α → Run β} (first : I.Keeps thrown good n (run m))
    (second : ∀ a m', run m = .ok a m' → I.heap m'.heap → n ≤ m'.heap.size → good m'.heap.size a →
      I.Keeps thrown fine m'.heap.size (next a m')) : I.Keeps thrown fine n ((run >>= next) m) := by
  change I.Keeps thrown fine n (EStateM.bind run next m)
  unfold EStateM.bind
  cases ran : run m with
  | ok a m' =>
    rw [ran] at first
    obtain ⟨heap, grown, value⟩ := first
    have later := second a m' ran heap grown value
    simp only
    cases ranNext : next a m' with
    | ok b m'' =>
      rw [ranNext] at later
      exact ⟨later.1, grown.trans later.2.1, later.2.2⟩
    | error stop m'' =>
      rw [ranNext] at later
      exact ⟨later.1, grown.trans later.2.1, later.2.2⟩
  | error stop m' =>
    rw [ran] at first
    exact first

theorem Keeps.pure {a : α} (heap : I.heap m.heap) (holds : good m.heap.size a) :
    I.Keeps thrown good m.heap.size ((Pure.pure a : Run α) m) :=
  ⟨heap, le_rfl, holds⟩

theorem Keeps.weaken {other : RuntimeError → Prop} {result : EStateM.Result Stop Machine α}
    (keeps : I.Keeps thrown good n result) (weaker : ∀ e, thrown e → other e) : I.Keeps other good n result := by
  cases result with
  | ok a m => exact keeps
  | error stop m => exact ⟨keeps.1, keeps.2.1, fun e same => weaker e (keeps.2.2 e same)⟩

open Run

theorem stop_keeps {stop : Stop} (quiet : ∀ e, stop ≠ .error e) (heap : I.heap m.heap) :
    I.Keeps thrown good m.heap.size ((throw stop : Run α) m) :=
  ⟨heap, le_rfl, fun e same => absurd same (quiet e)⟩

theorem refuse_keeps (fault : Fault) (heap : I.heap m.heap) :
    I.Keeps thrown good m.heap.size ((refuse fault : Run α) m) :=
  stop_keeps (by simp) heap

theorem fail_keeps {cause : Cause} {loc : Option Loc} (heap : I.heap m.heap) (own : cause.IsOwn)
    (located : I.loc place loc) : I.Keeps (I.error place) good m.heap.size ((fail cause loc : Run α) m) := by
  refine ⟨heap, le_rfl, fun e same => ?_⟩
  cases same
  exact I.raised own located

theorem put_keeps (line : Output) (heap : I.heap m.heap) :
    I.Keeps thrown (fun _ _ => True) m.heap.size (put line m) :=
  ⟨heap, le_rfl, trivial⟩

theorem trace_keeps (setting : Setting) (event : Event) (heap : I.heap m.heap) :
    I.Keeps thrown (fun _ _ => True) m.heap.size (trace setting event m) := by
  unfold trace
  split
  · exact put_keeps _ heap
  · exact Keeps.pure heap trivial

theorem newFrame_keeps {parent : FrameId} (heap : I.heap m.heap) (readable : I.reads m.heap.size parent) :
    I.Keeps thrown I.writes m.heap.size (newFrame parent m) := by
  obtain ⟨pushed, writable⟩ := I.push heap readable
  have size := Heap.size_push m.heap (some parent)
  refine ⟨pushed, ?_, ?_⟩
  · exact (Nat.le_succ _).trans_eq size.symm
  · exact size.symm ▸ writable

theorem declare_keeps {f : FrameId} {value : Value} {loc : Option Loc} (name : Json) (heap : I.heap m.heap)
    (writable : I.writes m.heap.size f) (holds : I.value m.heap.size value) (located : I.loc place loc) :
    I.Keeps (I.error place) (fun _ _ => True) m.heap.size (declare f name value loc m) := by
  unfold declare keyOf
  cases Key.ofJson? name with
  | none => exact refuse_keeps _ heap
  | some key =>
    change I.Keeps _ _ _ ((if m.heap.binds f key then fail _ loc
      else modify fun m => { m with heap := m.heap.bind f key value } : Run Unit) m)
    split
    next => exact fail_keeps heap trivial located
    next free =>
      have bound := I.bind heap writable (by simpa using free) holds
      exact ⟨bound, (Heap.size_bind ..).ge, trivial⟩

theorem assign_keeps {f : FrameId} {value : Value} {missing : String → Cause} {loc : Option Loc} (name : Json)
    (heap : I.heap m.heap) (readable : I.reads m.heap.size f) (holds : I.value m.heap.size value)
    (own : ∀ shown, (missing shown).IsOwn) (located : I.loc place loc) :
    I.Keeps (I.error place) (fun _ _ => True) m.heap.size (assign f name value missing loc m) := by
  cases keyed : Key.ofJson? name with
  | none =>
    unfold assign keyOf
    rw [keyed]
    exact refuse_keeps _ heap
  | some key =>
    rw [assign_eq keyed]
    cases found : m.heap.holder? f key with
    | some holder => exact ⟨I.rebind heap readable found holds, (Heap.size_rebind ..).ge, trivial⟩
    | none => exact fail_keeps heap (own _) located

theorem reserved?_isPlain {key : Key} {v : Value} (found : reserved? key = some v) : v.IsPlain := by
  unfold reserved? at found
  split at found <;> cases found <;> trivial

theorem lookup_keeps {f : FrameId} {loc : Option Loc} (name : Json) (heap : I.heap m.heap)
    (readable : I.reads m.heap.size f) (located : I.loc place loc) :
    I.Keeps (I.error place) I.value m.heap.size (lookup f name loc m) := by
  cases keyed : Key.ofJson? name with
  | none =>
    unfold lookup keyOf
    rw [keyed]
    exact refuse_keeps _ heap
  | some key =>
    cases reserved : reserved? key with
    | some value =>
      rw [lookup_reserved keyed reserved]
      exact ⟨heap, le_rfl, I.plain (reserved?_isPlain reserved)⟩
    | none =>
      rw [lookup_eq keyed reserved]
      cases found : m.heap.get? f key with
      | some value => exact Keeps.pure heap (I.get heap readable found)
      | none => exact fail_keeps heap trivial located

theorem operated_keeps {result : Operated Value} {cause : OperationError → Cause} {loc : Option Loc}
    (heap : I.heap m.heap) (plain : Value.IsPlainResult result) (own : ∀ e, (cause e).IsOwn)
    (located : I.loc place loc) : I.Keeps (I.error place) I.value m.heap.size (operated result cause loc m) := by
  unfold operated
  split
  next v => exact Keeps.pure heap (I.plain (plain v rfl))
  next => exact fail_keeps heap (own _) located
  next => exact refuse_keeps _ heap

theorem binary_keeps {loc : Option Loc} (operator : Json) (left right : Value) (heap : I.heap m.heap)
    (located : I.loc place loc) : I.Keeps (I.error place) I.value m.heap.size (binary operator left right loc m) := by
  unfold binary
  split
  · exact operated_keeps heap (Value.operate_isRegular left right _).plain (fun _ => trivial) located
  · exact refuse_keeps _ heap
  · exact refuse_keeps _ heap
  · exact fail_keeps heap trivial located

theorem unary_keeps {loc : Option Loc} (operator : Json) (value : Value) (heap : I.heap m.heap)
    (located : I.loc place loc) : I.Keeps (I.error place) I.value m.heap.size (unary operator value loc m) := by
  fun_cases unary operator value loc with
  | case6 => exact operated_keeps heap (Value.negate_isRegular value _).plain (fun _ => trivial) located
  | _ => exact fail_keeps heap trivial located

theorem rangeOf_keeps (start stop : Json) (heap : I.heap m.heap) :
    I.Keeps thrown (fun _ _ => True) m.heap.size (rangeOf start stop m) := by
  have bounded (bound : Json) (m : Machine) (heap : I.heap m.heap) :
      I.Keeps thrown (fun _ _ => True) m.heap.size (boundOf bound m) := by
    unfold boundOf
    split
    · exact Keeps.pure heap trivial
    · exact Keeps.pure heap trivial
    · exact refuse_keeps _ heap
  unfold rangeOf
  split
  · exact (bounded start m heap).bind fun _ _ _ heap _ _ => Keeps.pure heap trivial
  · refine (bounded stop m heap).bind fun _ m' _ heap' _ _ => ?_
    exact (bounded start m' heap').bind fun _ _ _ heap'' _ _ => Keeps.pure heap'' trivial

theorem bindParams_keeps {f : FrameId} {loc : Option Loc} (located : I.loc place loc) {params : List Json}
    {args : List Value} (heap : I.heap m.heap) (writable : I.writes m.heap.size f)
    (holds : ∀ arg ∈ args, I.value m.heap.size arg) :
    I.Keeps (I.error place) (fun _ _ => True) m.heap.size (bindParams f loc params args m) := by
  induction params generalizing args m with
  | nil => exact Keeps.pure heap trivial
  | cons param params ih =>
    cases args with
    | nil => exact Keeps.pure heap trivial
    | cons arg args =>
      have declared := declare_keeps param heap writable (holds arg (List.mem_cons_self ..)) located
      refine declared.bind fun _ m' _ heap' grown _ => ?_
      exact ih heap' (I.writes_mono grown writable)
        fun other member => I.value_mono grown (holds other (List.mem_cons_of_mem _ member))

theorem runNative_keeps {function : Native} {args : List Value} (heap : I.heap m.heap)
    (known : I.value m.heap.size (.native function)) (holds : ∀ arg ∈ args, I.value m.heap.size arg) :
    I.Keeps (I.thrown (.native function)) I.value m.heap.size (runNative function.action args m) := by
  cases action : function.action with
  | clock => exact ⟨heap, le_rfl, I.plain trivial⟩
  | first =>
    cases args with
    | nil => exact refuse_keeps _ heap
    | cons arg args => exact Keeps.pure heap (holds arg (List.mem_cons_self ..))
  | count => exact ⟨heap, le_rfl, I.plain trivial⟩
  | nothing => exact Keeps.pure heap (I.plain trivial)
  | fail kind message =>
    refine ⟨heap, le_rfl, fun e same => ?_⟩
    cases same
    exact I.native known action

/-- What comes out of a call is wrapped at the node of the call. -/
theorem wrapped_keeps {callee : Node} {args : List Node} {loc : Option Loc} {function : Value} {name : String}
    {run : Run α} (code : I.node place (.call callee args loc)) (known : I.value n function)
    (named : calleeName? function = some name) (called : I.Keeps (I.thrown function) good m.heap.size (run m)) :
    I.Keeps (I.error place) good m.heap.size (wrapped name loc run m) := by
  unfold wrapped
  split
  next e m' ran =>
    rw [ran] at called
    refine ⟨called.1, called.2.1, fun outer same => ?_⟩
    cases same
    exact I.inCall code known named (called.2.2 e rfl)
  next other =>
    cases ran : run m with
    | ok a m' =>
      rw [ran] at called
      exact called
    | error stop m' =>
      rw [ran] at called
      refine ⟨called.1, called.2.1, fun e same => ?_⟩
      subst same
      exact absurd ran (other e m')

end Invariant

end PhyLang
