import PhyLang.Proofs.Interpreter.Agreement
import PhyLang.Proofs.Interpreter.Bare

namespace PhyLang

/-- A completion with a bare value. -/
def Completion.bare : Completion → Completion
  | .value v => .value v.bare
  | .returned v => .returned v.bare

namespace Run

variable {α δ : Type} {m m' : Machine}

/-- The end of a run without locations and parentheses. -/
def bared (β : α → α) : EStateM.Result Stop Machine α → EStateM.Result Stop Machine α
  | .ok a m => .ok (β a) m.bare
  | .error stop m => .error stop.bare m.bare

/-- Steps that commute with making bare do so one after the other. -/
theorem bind_bared {β : α → α} {γ : δ → δ} {run run' : Run α} {next next' : α → Run δ}
    (first : bared β (run m) = run' m.bare) (second : ∀ a m', bared γ (next a m') = next' (β a) m'.bare) :
    bared γ ((run >>= next) m) = (run' >>= next') m.bare := by
  change bared γ (EStateM.bind run next m) = EStateM.bind run' next' m.bare
  unfold EStateM.bind
  rw [← first]
  cases run m with
  | ok a m' => exact second a m'
  | error stop m' => rfl

theorem fail_bared (β : α → α) {cause : Cause} (same : cause.bare = cause) (loc : Option Loc) :
    bared β (fail cause loc m) = fail cause none m.bare := by
  change EStateM.Result.error (Stop.error (.raised cause.bare none)) m.bare = _
  rw [same]
  rfl

theorem trace_bared (setting : Setting) (event : Event) :
    bared id (trace setting event m) = trace setting event m.bare := by
  unfold trace
  split <;> rfl

theorem newFrame_bared (parent : FrameId) : bared id (newFrame parent m) = newFrame parent m.bare := by
  change EStateM.Result.ok m.heap.size (Machine.bare { m with heap := m.heap.push (some parent) }) =
    .ok (m.heap.map Value.bare).size { m.bare with heap := (m.heap.map Value.bare).push (some parent) }
  rw [Heap.size_map]
  simp only [Machine.bare, Heap.map_push]

theorem declare_bared (f : FrameId) (name : Json) (value : Value) (loc : Option Loc) :
    bared id (declare f name value loc m) = declare f name value.bare none m.bare := by
  unfold declare keyOf
  cases Key.ofJson? name with
  | none => rfl
  | some key =>
    change bared id ((if m.heap.binds f key then fail _ loc
        else modify fun m => { m with heap := m.heap.bind f key value } : Run Unit) m) =
      (if m.bare.heap.binds f key then fail _ none
        else modify fun m => { m with heap := m.heap.bind f key value.bare } : Run Unit) m.bare
    have binds : m.bare.heap.binds f key = m.heap.binds f key := Heap.map_binds f key
    rw [binds]
    split
    · rfl
    · change EStateM.Result.ok () (Machine.bare { m with heap := m.heap.bind f key value }) = .ok () _
      simp only [Machine.bare, Heap.map_bind]

theorem assign_bared (f : FrameId) (name : Json) (value : Value) {missing : String → Cause}
    (own : ∀ shown, (missing shown).bare = missing shown) (loc : Option Loc) :
    bared id (assign f name value missing loc m) = assign f name value.bare missing none m.bare := by
  cases keyed : Key.ofJson? name with
  | none =>
    unfold assign keyOf
    rw [keyed]
    rfl
  | some key =>
    have holder : m.bare.heap.holder? f key = m.heap.holder? f key := Heap.map_holder? f key
    rw [assign_eq keyed, assign_eq keyed, holder]
    cases m.heap.holder? f key with
    | none => exact fail_bared id (own _) loc
    | some holder =>
      change EStateM.Result.ok () (Machine.bare { m with heap := m.heap.rebind holder key value }) = .ok () _
      simp only [Machine.bare, Heap.map_rebind]

theorem reserved?_bare {key : Key} {value : Value} (reserved : reserved? key = some value) : value.bare = value := by
  unfold reserved? at reserved
  split at reserved <;> cases reserved <;> rfl

theorem lookup_bared (f : FrameId) (name : Json) (loc : Option Loc) :
    bared Value.bare (lookup f name loc m) = lookup f name none m.bare := by
  cases keyed : Key.ofJson? name with
  | none =>
    unfold lookup keyOf
    rw [keyed]
    rfl
  | some key =>
    cases reserved : reserved? key with
    | some value =>
      rw [lookup_reserved keyed reserved, lookup_reserved keyed reserved, bared, reserved?_bare reserved]
    | none =>
      have found : m.bare.heap.get? f key = (m.heap.get? f key).map Value.bare := Heap.map_get? f key
      rw [lookup_eq keyed reserved, lookup_eq keyed reserved, found]
      cases m.heap.get? f key <;> rfl

theorem operated_bared {result : Operated Value} (plain : Value.IsPlainResult result)
    {cause : OperationError → Cause} (own : ∀ e, (cause e).bare = cause e) (loc : Option Loc) :
    bared Value.bare (operated result cause loc m) = operated result cause none m.bare := by
  cases result with
  | ok v => exact congrArg (EStateM.Result.ok · m.bare) (Value.bare_of_isPlain (plain v rfl))
  | error failure =>
    cases failure with
    | error e => exact fail_bared _ (own e) loc
    | fault f => rfl

theorem binary_bared (operator : Json) (left right : Value) (loc : Option Loc) :
    bared Value.bare (binary operator left right loc m) = binary operator left.bare right.bare none m.bare := by
  cases operator with
  | str op =>
    change bared _ (operated (left.operate right op) .operation loc m) = operated _ .operation none m.bare
    rw [Value.operate_bare]
    exact operated_bared (Value.operate_isRegular left right op).plain (fun _ => rfl) loc
  | _ => rfl

/-- An unknown operator is refused by the operation itself. -/
theorem unary_other {op : String} (bang : op ≠ "!") (minus : op ≠ "-") (value : Value) (loc : Option Loc) :
    unary (.str op) value loc = operated (value.negate op) .negation loc := by
  unfold unary
  split <;> simp_all

theorem unary_bared (operator : Json) (value : Value) (loc : Option Loc) :
    bared Value.bare (unary operator value loc m) = unary operator value.bare none m.bare := by
  cases operator with
  | str op =>
    have negated : bared Value.bare (operated (value.negate op) .negation loc m) =
        operated (value.bare.negate op) .negation none m.bare := by
      rw [Value.negate_bare]
      exact operated_bared (Value.negate_isRegular value op).plain (fun _ => rfl) loc
    by_cases bang : op = "!"
    · subst bang
      cases value <;> rfl
    · by_cases minus : op = "-"
      · subst minus
        cases value <;> first | rfl | exact negated
      · rw [unary_other bang minus, unary_other bang minus]
        exact negated
  | _ => rfl

theorem rangeOf_bared (start stop : Json) : bared id (rangeOf start stop m) = rangeOf start stop m.bare := by
  unfold rangeOf boundOf
  cases stop <;> cases start <;> rfl

theorem runNative_bared (action : NativeAction) (args : List Value) :
    bared Value.bare (runNative action args m) = runNative action (args.map Value.bare) m.bare := by
  cases action with
  | first => cases args <;> rfl
  | count =>
    change EStateM.Result.ok (Value.int _) _ = EStateM.Result.ok (Value.int _) _
    simp [Machine.bare]
  | _ => rfl

theorem bindParams_bared (f : FrameId) (loc : Option Loc) (params : List Json) (args : List Value) :
    bared id (bindParams f loc params args m) = bindParams f none params (args.map Value.bare) m.bare := by
  induction params generalizing args m with
  | nil => rfl
  | cons param params ih =>
    cases args with
    | nil => rfl
    | cons arg args => exact bind_bared (declare_bared f param arg loc) fun _ _ => ih args

/-- The end of a call whose function has ended. -/
def insideCall (name : String) (loc : Option Loc) : EStateM.Result Stop Machine α → EStateM.Result Stop Machine α
  | .error (.error e) m => .error (.error (.inCall name e loc)) m
  | result => result

theorem insideCall_bared (β : α → α) (name : String) (loc : Option Loc) (result : EStateM.Result Stop Machine α) :
    bared β (insideCall name loc result) = insideCall name none (bared β result) := by
  cases result with
  | ok a m => rfl
  | error stop m => cases stop <;> rfl

theorem left_insideCall (name : String) (loc : Option Loc) (result : EStateM.Result Stop Machine α) :
    left (insideCall name loc result) = left result := by
  cases result with
  | ok a m => rfl
  | error stop m => cases stop <;> rfl

/-- What was put out before makes no difference to a run. -/
def Blind (run : Run α) : Prop := ∀ older m, Agrees (· ++ older) run run m

theorem Blind.bind {run : Run α} {next : α → Run δ} (first : Blind run) (second : ∀ a, Blind (next a)) :
    Blind (run >>= next) :=
  fun older m => (first older m).bind fun a m' _ => second a older m'

/-- A run takes nothing back that was put out before. -/
theorem Blind.output_suffix {run : Run α} (blind : Blind run) (m : Machine) : m.output <:+ (left (run m)).output := by
  have same : run m = seen (· ++ m.output) (run { m with output := [] }) := blind m.output { m with output := [] }
  rw [same, left_seen]
  exact List.suffix_append _ _

/-- A view in which older lines come last changes nothing about the trace. -/
theorem shows_older (setting : Setting) (older : List Output) : Setting.Shows (· ++ older) setting setting :=
  ⟨fun _ _ => rfl, fun _ _ recorded => ⟨recorded, rfl⟩, fun _ _ recorded silent => absurd recorded silent, le_rfl⟩

theorem answer_blind (setting : Setting) (task : Task) : Blind (task.answer setting) := fun older m =>
  Point.agrees (p := ⟨task, m⟩) (shows_older setting older) fun _ => fun overflows => overflows.full

/-- The end of a run, and those of another one with more and more steps, since parentheses take steps: with enough
steps the other one has an end that is the same but for locations and parentheses. An end for want of steps is matched
as soon as the other run has put out all that was put out until then. -/
inductive Matches (β : α → α) : EStateM.Result Stop Machine α → (Nat → EStateM.Result Stop Machine α) → Prop
  | ended {first second : EStateM.Result Stop Machine α} {others : Nat → EStateM.Result Stop Machine α}
      (enough : Nat) (stable : ∀ fuel ≥ enough, others fuel = second) (same : bared β first = bared β second) :
      Matches β first others
  | exhausted {m : Machine} {others : Nat → EStateM.Result Stop Machine α} (enough : Nat)
      (shown : ∀ fuel ≥ enough, m.output <:+ (left (others fuel)).output) : Matches β (.error .exhausted m) others

namespace Matches

variable {β : α → α} {γ : δ → δ} {first : EStateM.Result Stop Machine α}
  {others others' : Nat → EStateM.Result Stop Machine α}

/-- Only the ends with enough steps matter. -/
theorem congr (matched : Matches β first others) (enough : Nat) (same : ∀ fuel ≥ enough, others' fuel = others fuel) :
    Matches β first others' := by
  cases matched with
  | ended n stable alike =>
    refine .ended (max n enough) (fun fuel many => ?_) alike
    rw [same fuel (le_of_max_le_right many), stable fuel (le_of_max_le_left many)]
  | exhausted n shown =>
    refine .exhausted (max n enough) fun fuel many => ?_
    rw [same fuel (le_of_max_le_right many)]
    exact shown fuel (le_of_max_le_left many)

/-- Some steps more or less make no difference. -/
theorem shift (steps : Nat) (matched : Matches β first fun fuel => others (fuel + steps)) : Matches β first others := by
  have back (fuel : Nat) (many : fuel ≥ steps) : fuel - steps + steps = fuel := Nat.sub_add_cancel many
  cases matched with
  | ended n stable alike =>
    refine .ended (n + steps) (fun fuel many => ?_) alike
    have late : others (fuel - steps + steps) = _ := stable (fuel - steps) (Nat.le_sub_of_add_le many)
    rwa [back fuel (Nat.le_of_add_left_le many)] at late
  | @exhausted m _ n shown =>
    refine .exhausted (n + steps) fun fuel many => ?_
    have late : m.output <:+ (left (others (fuel - steps + steps))).output :=
      shown (fuel - steps) (Nat.le_sub_of_add_le many)
    rwa [back fuel (Nat.le_of_add_left_le many)] at late

/-- Steps without fuel that have the same end match. -/
theorem of_bared {first second : EStateM.Result Stop Machine α} (same : bared β first = bared β second) :
    Matches β first fun _ => second :=
  .ended 0 (fun _ _ => rfl) same

theorem pure {a b : α} (same : β a = β b) (machines : m.bare = m'.bare) :
    Matches β ((Pure.pure a : Run α) m) fun _ => (Pure.pure b : Run α) m' := by
  refine of_bared ?_
  change EStateM.Result.ok (β a) m.bare = .ok (β b) m'.bare
  rw [same, machines]

theorem fail {cause cause' : Cause} (same : cause.bare = cause'.bare) (loc loc' : Option Loc)
    (machines : m.bare = m'.bare) :
    Matches β ((Run.fail cause loc : Run α) m) fun _ => (Run.fail cause' loc' : Run α) m' := by
  refine of_bared ?_
  change EStateM.Result.error (Stop.error (.raised cause.bare none)) m.bare =
    .error (Stop.error (.raised cause'.bare none)) m'.bare
  rw [same, machines]

theorem refuse (f : Fault) (machines : m.bare = m'.bare) :
    Matches β ((Run.refuse f : Run α) m) fun _ => (Run.refuse f : Run α) m' := by
  refine of_bared ?_
  change EStateM.Result.error (Stop.fault f) m.bare = .error (Stop.fault f) m'.bare
  rw [machines]

/-- A run with an end goes on as another one does that has the same end with enough steps. -/
theorem bind_ended {run : Run α} {run' : Nat → Run α} {next : α → Run δ} {next' : Nat → α → Run δ}
    {second : EStateM.Result Stop Machine α} (enough : Nat) (stable : ∀ fuel ≥ enough, run' fuel m' = second)
    (same : bared β (run m) = bared β second)
    (later : ∀ a b n n', β a = β b → n.bare = n'.bare → Matches γ (next a n) fun fuel => next' fuel b n') :
    Matches γ ((run >>= next) m) fun fuel => (run' fuel >>= next' fuel) m' := by
  cases ran : run m with
  | ok a n =>
    rw [ran] at same
    cases second with
    | error => cases same
    | ok b n' =>
      obtain ⟨values, machines⟩ := EStateM.Result.ok.inj same
      rw [bind_ok ran]
      exact (later a b n n' values machines).congr enough fun fuel many => bind_ok (stable fuel many)
  | error stop n =>
    rw [ran] at same
    cases second with
    | ok => cases same
    | error stop' n' =>
      obtain ⟨stops, machines⟩ := EStateM.Result.error.inj same
      rw [bind_error ran]
      refine .ended enough (fun fuel many => bind_error (stable fuel many)) ?_
      rw [bared, bared, stops, machines]

/-- Matching runs stay matching if they go on in matching ways. -/
theorem bind {run : Run α} {run' : Nat → Run α} {next : α → Run δ} {next' : Nat → α → Run δ}
    (matched : Matches β (run m) fun fuel => run' fuel m') (blind : ∀ fuel b, Blind (next' fuel b))
    (later : ∀ a b n n', β a = β b → n.bare = n'.bare → Matches γ (next a n) fun fuel => next' fuel b n') :
    Matches γ ((run >>= next) m) fun fuel => (run' fuel >>= next' fuel) m' := by
  generalize ended : run m = result at matched
  cases matched with
  | ended enough stable same =>
    rw [← ended] at same
    exact bind_ended enough stable same later
  | exhausted enough shown =>
    rw [bind_error ended]
    refine .exhausted enough fun fuel many => ?_
    have early : _ <:+ (left (run' fuel m')).output := shown fuel many
    -- What comes after the first part of the other run takes nothing back.
    cases ran : run' fuel m' with
    | ok b n' =>
      rw [ran] at early
      rw [bind_ok ran]
      exact early.trans ((blind fuel b).output_suffix n')
    | error stop n' =>
      rw [ran] at early
      rw [bind_error ran]
      exact early

/-- A step without fuel before matching runs. -/
theorem bind_step {run run' : Run α} {next : α → Run δ} {next' : Nat → α → Run δ}
    (same : bared β (run m) = bared β (run' m'))
    (later : ∀ a b n n', β a = β b → n.bare = n'.bare → Matches γ (next a n) fun fuel => next' fuel b n') :
    Matches γ ((run >>= next) m) fun fuel => (run' >>= next' fuel) m' :=
  bind_ended 0 (fun _ _ => rfl) same later

theorem wrapped {run : Run α} {run' : Nat → Run α} (name : String) (loc loc' : Option Loc)
    (matched : Matches β (run m) fun fuel => run' fuel m') :
    Matches β (wrapped name loc run m) fun fuel => wrapped name loc' (run' fuel) m' := by
  change Matches β (insideCall name loc (run m)) fun fuel => insideCall name loc' (run' fuel m')
  generalize run m = result at matched
  cases matched with
  | ended enough stable same =>
    refine .ended enough (fun fuel many => congrArg (insideCall name loc') (stable fuel many)) ?_
    rw [insideCall_bared, insideCall_bared, same]
  | exhausted enough shown =>
    refine .exhausted enough fun fuel many => ?_
    rw [left_insideCall]
    exact shown fuel many

end Matches

end Run

end PhyLang
