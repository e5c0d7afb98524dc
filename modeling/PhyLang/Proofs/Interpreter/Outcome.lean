import PhyLang.Proofs.Scope.Values
import PhyLang.Proofs.Value.Sound

namespace PhyLang

/-- The kinds of errors of the language. -/
def RuntimeError.kinds : List String :=
  ["OperationError", "BangOnNonBool", "NegateNonNumeric", "NegationError", "DeclarationError", "UndefinedVariable",
    "UndefinedAssignment", "UninitializedValue", "NonBoolIfCondition", "NonBoolWhileCondition", "ForLoopError",
    "NotCallable", "ArityMismatch", "CallError", "StackOverflow", "Return"]

/-- Every cause but those of the host's functions has one of the kinds. -/
theorem Cause.kind_mem {cause : Cause} (own : ∀ kind message, cause ≠ .host kind message) :
    cause.kind ∈ RuntimeError.kinds := by
  cases cause with
  | host kind message => exact absurd rfl (own kind message)
  | _ => simp [Cause.kind, RuntimeError.kinds]

/-- All variables of a machine have sound values. -/
def Machine.IsSound (parts : Parts) (m : Machine) : Prop := m.heap.Holds (Value.IsSound parts)

/-- A fresh machine holds nothing but the clock. -/
theorem Machine.initial_holds {good : Value → Prop} (clock : Clock) (reads : good (.native readClock)) :
    (Machine.initial [] clock).heap.Holds good := by
  have empty : Heap.empty.Holds good := by
    intro frame inside
    simp [Heap.empty] at inside
  exact (empty.push none).bind globalFrame _ reads

/-- The end of a step: with a value of a kind, with an error of the language, or for want of fuel, and on a
sound machine. -/
def Ends {α : Type} (parts : Parts) (good : α → Prop) : EStateM.Result Stop Machine α → Prop
  | .ok a m => good a ∧ m.IsSound parts
  | .error (.error e) m => e.kind ∈ RuntimeError.kinds ∧ m.IsSound parts
  | .error .exhausted m => m.IsSound parts
  | .error (.fault _) _ => False

variable {α β : Type} {parts : Parts} {good : α → Prop} {m : Machine}

/-- What stops a step early stops whatever would have come after it. -/
theorem Ends.error {fine : β → Prop} {stop : Stop} (ends : Ends parts good (.error stop m)) :
    Ends parts fine (.error stop m) := by
  cases stop <;> exact ends

theorem Ends.bind {fine : β → Prop} {run : Run α} {next : α → Run β} (first : Ends parts good (run m))
    (second : ∀ a m', run m = .ok a m' → good a → m'.IsSound parts → Ends parts fine (next a m')) :
    Ends parts fine ((run >>= next) m) := by
  change Ends parts fine (EStateM.bind run next m)
  unfold EStateM.bind
  cases ran : run m with
  | ok a m' =>
    rw [ran] at first
    exact second a m' ran first.1 first.2
  | error stop m' =>
    rw [ran] at first
    exact first.error

theorem Ends.map {fine : β → Prop} {run : Run α} {f : α → β} (ends : Ends parts (fun a => fine (f a)) (run m)) :
    Ends parts fine ((f <$> run) m) := by
  change Ends parts fine (EStateM.map f run m)
  unfold EStateM.map
  cases ran : run m with
  | ok a m' =>
    rw [ran] at ends
    exact ends
  | error stop m' =>
    rw [ran] at ends
    exact ends.error

theorem Ends.of_map {fine : β → Prop} {run : Run α} {f : α → β} (ends : Ends parts fine ((f <$> run) m)) :
    Ends parts (fun a => fine (f a)) (run m) := by
  change Ends parts fine (EStateM.map f run m) at ends
  unfold EStateM.map at ends
  cases ran : run m with
  | ok a m' =>
    rw [ran] at ends
    exact ends
  | error stop m' =>
    rw [ran] at ends
    exact ends.error

/-- What is known of a step that succeeded. -/
theorem Ends.ok {run : Run α} (ends : Ends parts good (run m)) {a : α} {m' : Machine} (ran : run m = .ok a m') :
    good a ∧ m'.IsSound parts := by
  rw [ran] at ends
  exact ends

theorem Ends.pure {a : α} (holds : good a) (sound : m.IsSound parts) : Ends parts good ((Pure.pure a : Run α) m) :=
  ⟨holds, sound⟩

namespace Run

theorem fail_ends {cause : Cause} (own : ∀ kind message, cause ≠ .host kind message) (loc : Option Loc)
    (sound : m.IsSound parts) : Ends parts good ((fail cause loc : Run α) m) :=
  ⟨Cause.kind_mem own, sound⟩

theorem trace_ends (setting : Setting) (event : Event) (sound : m.IsSound parts) :
    Ends parts (fun _ => True) (trace setting event m) := by
  unfold trace
  split
  · exact ⟨trivial, sound⟩
  · exact ⟨trivial, sound⟩

theorem newFrame_ends (parent : FrameId) (sound : m.IsSound parts) :
    Ends parts (fun _ => True) (newFrame parent m) :=
  ⟨trivial, sound.push (some parent)⟩

theorem declare_ends {name : Json} {value : Value} (named : parts.IsName name) (f : FrameId) (loc : Option Loc)
    (good : value.IsSound parts) (sound : m.IsSound parts) :
    Ends parts (fun _ => True) (declare f name value loc m) := by
  obtain ⟨text, rfl, -⟩ := named
  change Ends parts _ ((if m.heap.binds f (.text text) then fail (.declaredTwice _) loc
    else modify fun m => { m with heap := m.heap.bind f (.text text) value } : Run Unit) m)
  split
  · exact fail_ends (by simp) loc sound
  · exact ⟨trivial, sound.bind f (.text text) good⟩

/-- An assignment to a name that can be one. -/
theorem assign_eq {name : Json} {key : Key} (keyed : Key.ofJson? name = some key) (f : FrameId) (value : Value)
    (missing : String → Cause) (loc : Option Loc) :
    assign f name value missing loc m = (match m.heap.holder? f key with
      | some holder => modify fun m => { m with heap := m.heap.rebind holder key value }
      | none => fail (missing name.shown) loc : Run Unit) m := by
  unfold assign keyOf
  rw [keyed]
  rfl

theorem assign_ends {name : Json} {value : Value} (named : parts.IsName name) (f : FrameId)
    {missing : String → Cause} (own : ∀ shown kind message, missing shown ≠ .host kind message) (loc : Option Loc)
    (good : ∀ m', assign f name value missing loc m = .ok () m' → value.IsSound parts) (sound : m.IsSound parts) :
    Ends parts (fun _ => True) (assign f name value missing loc m) := by
  obtain ⟨text, rfl, -⟩ := named
  rw [assign_eq rfl] at good ⊢
  cases found : m.heap.holder? f (.text text) with
  | some holder =>
    rw [found] at good
    exact ⟨trivial, sound.rebind holder (.text text) (good _ rfl)⟩
  | none => exact fail_ends (own _) loc sound

theorem reserved?_sound {key : Key} {v : Value} (found : reserved? key = some v) : v.IsSound parts := by
  unfold reserved? at found
  split at found <;> cases found <;> trivial

/-- The value of a name that can be one and stands for nothing everywhere. -/
theorem lookup_eq {name : Json} {key : Key} (keyed : Key.ofJson? name = some key) (free : reserved? key = none)
    (f : FrameId) (loc : Option Loc) :
    lookup f name loc m = (match m.heap.get? f key with
      | some value => pure value
      | none => fail (.undefinedVariable name.shown) loc : Run Value) m := by
  unfold lookup keyOf
  rw [keyed]
  simp only [bind, EStateM.bind, pure, EStateM.pure, free]
  rfl

/-- A name that is found is evaluated to its value, and nothing changes. -/
theorem evaluate_identifier {setting : Setting} {fuel depth : Nat} {f : FrameId} {name : Json} {key : Key}
    {value : Value} {loc : Option Loc} (keyed : Key.ofJson? name = some key) (free : reserved? key = none)
    (found : m.heap.get? f key = some value) :
    evaluate setting (fuel + 1) depth f (.identifier name loc) m = .ok value m := by
  have looked : lookup f name loc m = .ok value m := by
    rw [lookup_eq keyed free, found]
    rfl
  exact looked

theorem lookup_reserved {name : Json} {key : Key} (keyed : Key.ofJson? name = some key) {value : Value}
    (reserved : reserved? key = some value) (f : FrameId) (loc : Option Loc) : lookup f name loc m = .ok value m := by
  unfold lookup keyOf
  rw [keyed]
  simp only [bind, EStateM.bind, pure, EStateM.pure, reserved]

theorem lookup_ends {name : Json} (named : parts.IsName name) (f : FrameId) (loc : Option Loc)
    (sound : m.IsSound parts) : Ends parts (Value.IsSound parts) (lookup f name loc m) := by
  obtain ⟨text, rfl, -⟩ := named
  cases reserved : reserved? (.text text) with
  | some value =>
    rw [lookup_reserved rfl reserved]
    exact ⟨reserved?_sound reserved, sound⟩
  | none =>
    rw [lookup_eq rfl reserved]
    cases found : m.heap.get? f (.text text) with
    | some value => exact ⟨sound.get? found, sound⟩
    | none => exact fail_ends (by simp) loc sound

theorem operated_ends {result : Operated Value} (fits : Value.SoundResult parts result)
    {cause : OperationError → Cause} (own : ∀ e kind message, cause e ≠ .host kind message) (loc : Option Loc)
    (sound : m.IsSound parts) : Ends parts (Value.IsSound parts) (operated result cause loc m) := by
  unfold operated
  split
  next v => exact ⟨fits, sound⟩
  next e => exact fail_ends (own e) loc sound
  next => exact fits.elim

theorem binary_ends (operator : String) {left right : Value} (first : left.IsSound parts)
    (second : right.IsSound parts) (loc : Option Loc) (sound : m.IsSound parts) :
    Ends parts (Value.IsSound parts) (binary (.str operator) left right loc m) :=
  operated_ends (Value.operate_sound first second operator) (by simp) loc sound

theorem unary_ends (operator : String) {value : Value} (good : value.IsSound parts) (loc : Option Loc)
    (sound : m.IsSound parts) : Ends parts (Value.IsSound parts) (unary (.str operator) value loc m) := by
  fun_cases unary (.str operator) value loc with
  | case6 => exact operated_ends (Value.negate_sound good _) (by simp) loc sound
  | _ => exact fail_ends (by simp) loc sound

theorem bindParams_ends (f : FrameId) (loc : Option Loc) {params : List Json} {args : List Value}
    (named : ∀ param ∈ params, parts.IsName param) (good : ∀ arg ∈ args, arg.IsSound parts)
    (sound : m.IsSound parts) : Ends parts (fun _ => True) (bindParams f loc params args m) := by
  induction params generalizing args m with
  | nil => exact ⟨trivial, sound⟩
  | cons param params ih =>
    cases args with
    | nil => exact ⟨trivial, sound⟩
    | cons arg args =>
      have declared := declare_ends (named param (List.mem_cons_self ..)) f loc (good arg (List.mem_cons_self ..)) sound
      refine declared.bind fun _ m' _ _ sound' => ?_
      exact ih (fun other member => named other (List.mem_cons_of_mem _ member))
        (fun other member => good other (List.mem_cons_of_mem _ member)) sound'

/-- What comes out of a call is wrapped, which leaves the kind of its end as it is. -/
theorem wrapped_ends {run : Run α} (name : String) (loc : Option Loc) (ends : Ends parts good (run m)) :
    Ends parts good (wrapped name loc run m) := by
  unfold wrapped
  split
  next e m' ran =>
    rw [ran] at ends
    exact ⟨by simp [RuntimeError.kind, RuntimeError.kinds], ends.2⟩
  next => exact ends

end Run

end PhyLang
