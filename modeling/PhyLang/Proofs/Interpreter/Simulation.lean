import PhyLang.Proofs.Interpreter.Likeness

namespace PhyLang

theorem Completion.ofValue_bare (v : Value) : (Completion.ofValue v).bare = .ofValue v.bare := by
  cases v <;> rfl

theorem Completion.result_bare (c : Completion) : c.result.bare = c.bare.result := by
  cases c <;> rfl

/-- Parentheses around an expression are opened by some steps. -/
theorem Node.exists_opened (setting : Setting) (node : Node) : ∃ (opened : Node) (steps : Nat),
    opened.IsOpened ∧ opened.bare = node.bare ∧ ∀ fuel depth f,
      Run.evaluate setting (fuel + steps) depth f node = Run.evaluate setting fuel depth f opened := by
  cases node with
  | grouping expr loc =>
    cases inner : expr.isExpression with
    | true =>
      obtain ⟨opened, steps, isOpened, same, runs⟩ := exists_opened setting expr
      exact ⟨opened, steps + 1, isOpened, same.trans (bare_grouping_eq inner).symm, fun fuel depth f => runs fuel depth f⟩
    | false =>
      refine ⟨_, 0, ?_, rfl, fun _ _ _ => rfl⟩
      exact inner
  | _ =>
    refine ⟨_, 0, ?_, rfl, fun _ _ _ => rfl⟩
    trivial

namespace Run

/-- Runs of a given number of steps match those of trees and values that are bare the same. -/
structure Likened (setting : Setting) (fuel : Nat) : Prop where
  execute {depth : Nat} {f : FrameId} {node node' : Node} {m m' : Machine} (same : node.bare = node'.bare)
    (machines : m.bare = m'.bare) : Matches Completion.bare (execute setting fuel depth f node m)
      fun steps => execute setting steps depth f node' m'
  initial {depth : Nat} {f : FrameId} {expr expr' : Node} {m m' : Machine} (same : expr.bare = expr'.bare)
    (machines : m.bare = m'.bare) : Matches Value.bare (initial setting fuel depth f expr m)
      fun steps => initial setting steps depth f expr' m'
  executeAll {depth : Nat} {f : FrameId} {nodes nodes' : List Node} {m m' : Machine}
    (same : Node.allBare nodes = Node.allBare nodes') (machines : m.bare = m'.bare) :
    Matches Completion.bare (executeAll setting fuel depth f nodes m)
      fun steps => executeAll setting steps depth f nodes' m'
  executeWhile {depth : Nat} {f : FrameId} {condition condition' body body' : Node} {m m' : Machine}
    (loc loc' : Option Loc) (asked : condition.bare = condition'.bare) (same : body.bare = body'.bare)
    (machines : m.bare = m'.bare) : Matches Completion.bare (executeWhile setting fuel depth f condition body loc m)
      fun steps => executeWhile setting steps depth f condition' body' loc' m'
  executeFor {depth : Nat} {f : FrameId} {name : Json} {body body' : Node} {value : Int} {count : Nat} {m m' : Machine}
    (loc loc' : Option Loc) (same : body.bare = body'.bare) (machines : m.bare = m'.bare) :
    Matches Completion.bare (executeFor setting fuel depth f name body loc value count m)
      fun steps => executeFor setting steps depth f name body' loc' value count m'
  evaluate {depth : Nat} {f : FrameId} {node node' : Node} {m m' : Machine} (same : node.bare = node'.bare)
    (machines : m.bare = m'.bare) : Matches Value.bare (evaluate setting fuel depth f node m)
      fun steps => evaluate setting steps depth f node' m'
  evaluateAll {depth : Nat} {f : FrameId} {nodes nodes' : List Node} {m m' : Machine}
    (same : Node.allBare nodes = Node.allBare nodes') (machines : m.bare = m'.bare) :
    Matches (List.map Value.bare) (evaluateAll setting fuel depth f nodes m)
      fun steps => evaluateAll setting steps depth f nodes' m'
  call {depth : Nat} {callee callee' : Value} {args args' : List Value} {m m' : Machine}
    (same : callee.bare = callee'.bare) (sames : args.map Value.bare = args'.map Value.bare)
    (machines : m.bare = m'.bare) : Matches Value.bare (call setting fuel depth callee args m)
      fun steps => call setting steps depth callee' args' m'

variable {setting : Setting} {fuel depth : Nat} {f : FrameId} {m m' : Machine}

/-- Without any steps, nothing is put out. -/
theorem Matches.start {α : Type} {β : α → α} {run : Nat → Run α} (machines : m.bare = m'.bare)
    (blind : ∀ steps, Blind (run steps)) :
    Matches β (.error .exhausted m) fun steps => run steps m' := by
  refine .exhausted 0 fun steps _ => ?_
  have output : m.bare.output = m'.bare.output := congrArg Machine.output machines
  change m.output = m'.output at output
  rw [output]
  exact (blind steps).output_suffix m'

theorem Likened.zero : Likened setting 0 where
  execute _ machines := .start machines fun steps => answer_blind setting (.execute steps _ _ _)
  initial _ machines := .start machines fun steps => answer_blind setting (.initial steps _ _ _)
  executeAll _ machines := .start machines fun steps => answer_blind setting (.executeAll steps _ _ _)
  executeWhile _ _ _ _ machines := .start machines fun steps => answer_blind setting (.executeWhile steps _ _ _ _ _)
  executeFor _ _ _ machines := .start machines fun steps => answer_blind setting (.executeFor steps _ _ _ _ _ _ _)
  evaluate _ machines := .start machines fun steps => answer_blind setting (.evaluate steps _ _ _)
  evaluateAll _ machines := .start machines fun steps => answer_blind setting (.evaluateAll steps _ _ _)
  call _ _ machines := .start machines fun steps => answer_blind setting (.call steps _ _ _)

section Likeness

theorem put_like {line line' : Output} (same : line = line') (machines : m.bare = m'.bare) :
    bared id (put line m) = bared id (put line' m') := by
  rw [same]
  exact congrArg (put line') machines

theorem trace_like {event event' : Event} (same : event = event') (machines : m.bare = m'.bare) :
    bared id (trace setting event m) = bared id (trace setting event' m') := by
  rw [same, trace_bared, trace_bared, machines]

theorem newFrame_like (parent : FrameId) (machines : m.bare = m'.bare) :
    bared id (newFrame parent m) = bared id (newFrame parent m') := by
  rw [newFrame_bared, newFrame_bared, machines]

variable {name : Json} {value value' : Value} {args args' : List Value}

theorem declare_like (same : value.bare = value'.bare) (loc loc' : Option Loc) (machines : m.bare = m'.bare) :
    bared id (declare f name value loc m) = bared id (declare f name value' loc' m') := by
  rw [declare_bared, declare_bared, same, machines]

theorem assign_like {missing : String → Cause} (own : ∀ shown, (missing shown).bare = missing shown)
    (same : value.bare = value'.bare) (loc loc' : Option Loc) (machines : m.bare = m'.bare) :
    bared id (assign f name value missing loc m) = bared id (assign f name value' missing loc' m') := by
  rw [assign_bared f name value own, assign_bared f name value' own, same, machines]

theorem lookup_like (loc loc' : Option Loc) (machines : m.bare = m'.bare) :
    bared Value.bare (lookup f name loc m) = bared Value.bare (lookup f name loc' m') := by
  rw [lookup_bared, lookup_bared, machines]

theorem rangeOf_like (start stop : Json) (machines : m.bare = m'.bare) :
    bared id (rangeOf start stop m) = bared id (rangeOf start stop m') := by
  rw [rangeOf_bared, rangeOf_bared, machines]

theorem binary_like (operator : Json) {left left' : Value} (first : left.bare = left'.bare)
    (second : value.bare = value'.bare) (loc loc' : Option Loc) (machines : m.bare = m'.bare) :
    bared Value.bare (binary operator left value loc m) = bared Value.bare (binary operator left' value' loc' m') := by
  rw [binary_bared, binary_bared, first, second, machines]

theorem unary_like (operator : Json) (same : value.bare = value'.bare) (loc loc' : Option Loc)
    (machines : m.bare = m'.bare) :
    bared Value.bare (unary operator value loc m) = bared Value.bare (unary operator value' loc' m') := by
  rw [unary_bared, unary_bared, same, machines]

theorem runNative_like (action : NativeAction) (sames : args.map Value.bare = args'.map Value.bare)
    (machines : m.bare = m'.bare) :
    bared Value.bare (runNative action args m) = bared Value.bare (runNative action args' m') := by
  rw [runNative_bared, runNative_bared, sames, machines]

theorem bindParams_like (params : List Json) (sames : args.map Value.bare = args'.map Value.bare)
    (loc loc' : Option Loc) (machines : m.bare = m'.bare) :
    bared id (bindParams f loc params args m) = bared id (bindParams f loc' params args' m') := by
  rw [bindParams_bared, bindParams_bared, sames, machines]

end Likeness

section Blindness

/-- What a statement does with a value that it declares. -/
theorem declaration_blind (name : Json) (value : Value) (loc : Option Loc) (event : Event) (c : Completion) :
    Blind (do declare f name value loc; trace setting event; return c : Run Completion) := fun older _ =>
  (declare_agrees f name value loc).bind fun _ _ _ => (trace_agrees (shows_older setting older) event).bind fun _ _ _ =>
    .pure c

theorem execute_blind (setting : Setting) (fuel depth : Nat) (f : FrameId) (node : Node) :
    Blind (execute setting fuel depth f node) := answer_blind setting (.execute fuel depth f node)

theorem evaluate_blind (setting : Setting) (fuel depth : Nat) (f : FrameId) (node : Node) :
    Blind (evaluate setting fuel depth f node) := answer_blind setting (.evaluate fuel depth f node)

theorem pure_blind {α : Type} (a : α) : Blind (pure a : Run α) := fun _ _ => .pure a

theorem fail_blind {α : Type} (cause : Cause) (loc : Option Loc) : Blind (fail cause loc : Run α) :=
  fun _ _ => fail_agrees cause loc

theorem put_blind (line : Output) : Blind (put line) := fun _ _ => put_agrees rfl

theorem trace_blind (setting : Setting) (event : Event) : Blind (trace setting event) :=
  fun older _ => trace_agrees (shows_older setting older) event

theorem branch_blind (setting : Setting) (fuel depth : Nat) (f : FrameId) (branch : Node) :
    Blind (match branch with
      | .absent => return Completion.value .null
      | branch => execute setting fuel depth f branch) := by
  cases branch with
  | absent => exact pure_blind _
  | _ => exact execute_blind setting fuel depth f _

/-- What a `while` loop does behind its body leaves the output of before. -/
theorem againWhile_blind (setting : Setting) (fuel depth : Nat) (f : FrameId) (condition body : Node)
    (loc : Option Loc) (c : Completion) : Blind (match c with
      | .returned v => return .returned v
      | .value _ => executeWhile setting fuel depth f condition body loc) := by
  cases c with
  | returned v => exact pure_blind _
  | value v => exact answer_blind setting (.executeWhile fuel depth f condition body loc)

/-- What a call does behind its arguments leaves the output of before. -/
theorem calledWith_blind (setting : Setting) (fuel depth : Nat) (loc : Option Loc) (function : Value)
    (values : List Value) : Blind (match function.arity?, calleeName? function with
      | some expected, some name =>
        if expected ≠ values.length then fail (.arity expected values.length) loc
        else do
          trace setting (.called name (values.map Value.text))
          if setting.callLimit ≤ depth then fail (.tooDeep name) loc
          else wrapped name loc (call setting fuel (depth + 1) function values)
      | _, _ =>
        if function.isCallable then refuse .bareCallable
        else fail (.notCallable function.typeName) loc : Run Value) := by
  split
  · split
    · exact fail_blind _ loc
    · refine (trace_blind setting _).bind fun _ => ?_
      split
      · exact fail_blind _ loc
      · exact fun older n => (answer_blind setting (.call fuel (depth + 1) function values) older n).wrapped _ loc
  · split
    · exact fun _ _ => refuse_agrees _
    · exact fail_blind _ loc

end Blindness

/-- What is no statement is not executed. -/
theorem execute_refuses {node : Node} (other : node.isStatement = false) (setting : Setting) (fuel depth : Nat)
    (f : FrameId) : execute setting (fuel + 1) depth f node = refuse .notStatement := by
  cases node <;> first | rfl | cases other

/-- Declaring values that are bare the same, with the same event. -/
theorem declaration_matches {name : Json} {value value' : Value} (same : value.bare = value'.bare)
    (loc loc' : Option Loc) {event event' : Event} (events : event = event') (machines : m.bare = m'.bare) :
    Matches Completion.bare
      ((do declare f name value loc; trace setting event; return .value .null : Run Completion) m)
      fun _ => (do declare f name value' loc'; trace setting event'; return .value .null : Run Completion) m' := by
  refine Matches.bind_step (declare_like same loc loc' machines) fun _ _ n n' _ machines => ?_
  refine Matches.bind_step (trace_like events machines) fun _ _ n n' _ machines => ?_
  exact .pure rfl machines

section Steps

variable (like : Likened setting fuel)
include like

theorem branch_matches : (branch branch' : Node) → branch.bare = branch'.bare → m.bare = m'.bare →
    Matches Completion.bare ((match branch with
      | .absent => return Completion.value .null
      | branch => execute setting fuel depth f branch) m) fun steps => (match branch' with
      | .absent => return Completion.value .null
      | branch => execute setting steps depth f branch) m' := by
  intro branch branch' same machines
  by_cases empty : branch = .absent
  · subst empty
    have empty' : branch' = .absent := Node.bare_eq_absent same.symm
    subst empty'
    exact .pure rfl machines
  · have present : branch' ≠ .absent := by
      rintro rfl
      exact empty (Node.bare_eq_absent same)
    have ran := (like.execute same machines).congr 0 fun steps _ => congrFun (branch_eq setting steps depth f present) m'
    cases branch with
    | absent => exact absurd rfl empty
    | _ => exact ran

theorem executeAll_matches {nodes nodes' : List Node} (same : Node.allBare nodes = Node.allBare nodes')
    (machines : m.bare = m'.bare) :
    Matches Completion.bare (executeAll setting (fuel + 1) depth f nodes m)
      fun steps => executeAll setting (steps + 1) depth f nodes' m' := by
  cases nodes with
  | nil =>
    cases nodes' with
    | nil => exact .pure rfl machines
    | cons => cases same
  | cons node rest =>
    cases nodes' with
    | nil => cases same
    | cons node' rest' =>
      obtain ⟨first, later⟩ := List.cons.inj same
      refine (like.execute first machines).bind (fun steps c => ?_) fun c c' n n' ends machines => ?_
      · cases c with
        | returned v => exact pure_blind _
        | value v => exact answer_blind setting (.executeAll steps depth f rest')
      · cases c with
        | returned v =>
          cases c' with
          | returned => exact .pure ends machines
          | value => cases ends
        | value v =>
          cases c' with
          | returned => cases ends
          | value => exact like.executeAll later machines

theorem initial_matches {expr expr' : Node} (same : expr.bare = expr'.bare) (machines : m.bare = m'.bare) :
    Matches Value.bare (initial setting (fuel + 1) depth f expr m)
      fun steps => initial setting (steps + 1) depth f expr' m' := by
  by_cases empty : expr = .absent
  · subst empty
    have empty' : expr' = .absent := Node.bare_eq_absent same.symm
    subst empty'
    exact .pure rfl machines
  · have present : expr' ≠ .absent := by
      rintro rfl
      exact empty (Node.bare_eq_absent same)
    rw [initial_eq setting fuel depth f empty]
    exact (like.evaluate same machines).congr 0 fun steps _ => congrFun (initial_eq setting steps depth f present) m'

theorem executeWhile_matches {condition condition' body body' : Node} (loc loc' : Option Loc)
    (asked : condition.bare = condition'.bare) (same : body.bare = body'.bare) (machines : m.bare = m'.bare) :
    Matches Completion.bare (executeWhile setting (fuel + 1) depth f condition body loc m)
      fun steps => executeWhile setting (steps + 1) depth f condition' body' loc' m' := by
  have blind (steps : Nat) (c : Completion) := againWhile_blind setting steps depth f condition' body' loc' c
  refine (like.evaluate asked machines).bind (fun steps v => ?_) fun v v' n n' values machines => ?_
  · cases v with
    | bool holds =>
      cases holds with
      | true => exact (execute_blind setting steps depth f body').bind (blind steps)
      | false => exact pure_blind _
    | _ => exact fail_blind _ loc'
  · rcases Value.bool_or_of_bare values with ⟨holds, rfl, rfl⟩ | ⟨other, other'⟩
    · cases holds with
      | false => exact .pure rfl machines
      | true =>
        refine (like.execute same machines).bind blind fun c c' n n' ends machines => ?_
        cases c with
        | returned v =>
          cases c' with
          | returned => exact .pure ends machines
          | value => cases ends
        | value v =>
          cases c' with
          | returned => cases ends
          | value => exact like.executeWhile loc loc' asked same machines
    · cases v with
      | bool holds => exact absurd rfl (other holds)
      | _ =>
        cases v' with
        | bool holds => exact absurd rfl (other' holds)
        | _ => exact .fail rfl loc loc' machines

theorem executeFor_matches {name : Json} {body body' : Node} {value : Int} {count : Nat} (loc loc' : Option Loc)
    (same : body.bare = body'.bare) (machines : m.bare = m'.bare) :
    Matches Completion.bare (executeFor setting (fuel + 1) depth f name body loc value count m)
      fun steps => executeFor setting (steps + 1) depth f name body' loc' value count m' := by
  cases count with
  | zero => exact .pure rfl machines
  | succ count =>
    refine Matches.bind_step (assign_like (fun _ => rfl) rfl loc loc' machines) fun _ _ n n' _ machines => ?_
    refine Matches.bind_step (trace_like rfl machines) fun _ _ n n' _ machines => ?_
    refine (like.execute same machines).bind (fun steps c => ?_) fun c c' n n' ends machines => ?_
    · cases c with
      | returned v => exact pure_blind _
      | value v => exact answer_blind setting (.executeFor steps depth f name body' loc' (value + 1) count)
    · cases c with
      | returned v =>
        cases c' with
        | returned => exact .pure ends machines
        | value => cases ends
      | value v =>
        cases c' with
        | returned => cases ends
        | value => exact like.executeFor loc loc' same machines

theorem evaluateAll_matches {nodes nodes' : List Node} (same : Node.allBare nodes = Node.allBare nodes')
    (machines : m.bare = m'.bare) :
    Matches (List.map Value.bare) (evaluateAll setting (fuel + 1) depth f nodes m)
      fun steps => evaluateAll setting (steps + 1) depth f nodes' m' := by
  cases nodes with
  | nil =>
    cases nodes' with
    | nil => exact .pure rfl machines
    | cons => cases same
  | cons node rest =>
    cases nodes' with
    | nil => cases same
    | cons node' rest' =>
      obtain ⟨first, later⟩ := List.cons.inj same
      have blind (steps : Nat) : Blind (evaluateAll setting steps depth f rest') :=
        answer_blind setting (.evaluateAll steps depth f rest')
      refine (like.evaluate first machines).bind (fun steps v => (blind steps).bind fun _ => pure_blind _) ?_
      intro v v' n n' values machines
      refine (like.evaluateAll later machines).bind (fun _ _ => pure_blind _) ?_
      intro vs vs' n n' others machines
      exact .pure (congrArg₂ List.cons values others) machines

theorem call_matches {callee callee' : Value} {args args' : List Value} (same : callee.bare = callee'.bare)
    (sames : args.map Value.bare = args'.map Value.bare) (machines : m.bare = m'.bare) :
    Matches Value.bare (call setting (fuel + 1) depth callee args m)
      fun steps => call setting (steps + 1) depth callee' args' m' := by
  have causes : (Cause.notCallable callee.typeName).bare = (Cause.notCallable callee'.typeName).bare :=
    congrArg Cause.notCallable (Value.eq_of_bare Value.typeName_bare same)
  cases callee with
  | fn closure =>
    cases callee' with
    | fn closure' =>
      obtain ⟨-, params, bodies, frames, -⟩ := Closure.mk.inj (Value.fn.inj same)
      unfold call
      rw [← frames, ← params]
      refine Matches.bind_step (newFrame_like closure.frame machines) fun inner inner' n n' frames machines => ?_
      cases frames
      refine Matches.bind_step (bindParams_like _ sames _ _ machines) fun _ _ n n' _ machines => ?_
      refine (like.executeAll bodies machines).bind (fun _ _ => pure_blind _) fun c c' n n' ends machines => ?_
      refine .pure ?_ machines
      rw [Completion.result_bare, ends, Completion.result_bare]
    | _ => cases same
  | native function =>
    cases callee' with
    | native function' =>
      cases same
      exact .of_bared (runNative_like function.action sames machines)
    | _ => cases same
  | callable =>
    cases callee' with
    | callable => exact .refuse _ machines
    | _ => cases same
  | _ =>
    cases callee' with
    | fn | native | callable => cases same
    | _ => exact .fail causes none none machines

theorem callNode_matches {callee callee' : Node} {args args' : List Node} (loc loc' : Option Loc)
    (called : callee.bare = callee'.bare) (same : Node.allBare args = Node.allBare args') (machines : m.bare = m'.bare) :
    Matches Value.bare (evaluate setting (fuel + 1) depth f (.call callee args loc) m)
      fun steps => evaluate setting (steps + 1) depth f (.call callee' args' loc') m' := by
  have blind (steps : Nat) (function : Value) (values : List Value) :=
    calledWith_blind setting steps depth loc' function values
  refine (like.evaluate called machines).bind (fun steps v => ?_) fun function function' n n' functions machines => ?_
  · exact Blind.bind (answer_blind setting (.evaluateAll steps depth f args')) (blind steps v)
  refine (like.evaluateAll same machines).bind (fun steps values => blind steps function' values) ?_
  intro values values' n n' sames machines
  have arities : function.arity? = function'.arity? := Value.eq_of_bare Value.arity?_bare functions
  have names : calleeName? function = calleeName? function' := Value.eq_of_bare Value.calleeName?_bare functions
  have callables : function.isCallable = function'.isCallable := Value.eq_of_bare Value.isCallable_bare functions
  have types : function.typeName = function'.typeName := Value.eq_of_bare Value.typeName_bare functions
  have texts : values.map Value.text = values'.map Value.text := by
    have shown : (values.map Value.bare).map Value.text = (values'.map Value.bare).map Value.text := by rw [sames]
    simpa only [List.map_map, Function.comp_def, Value.text_bare] using shown
  have lengths : values.length = values'.length := by simpa only [List.length_map] using congrArg List.length sames
  simp only [← arities, ← names, ← callables, ← types, ← texts, ← lengths]
  have refused : Matches Value.bare
      ((if function.isCallable then refuse .bareCallable else fail (.notCallable function.typeName) loc : Run Value) n)
      fun _ => (if function.isCallable then refuse .bareCallable else fail (.notCallable function.typeName) loc') n' := by
    split
    · exact .refuse _ machines
    · exact .fail rfl loc loc' machines
  cases function.arity? with
  | none => exact refused
  | some expected =>
    cases calleeName? function with
    | none => exact refused
    | some name =>
      by_cases wrong : expected ≠ values.length
      · simp only [if_pos wrong]
        exact .fail rfl loc loc' machines
      · simp only [if_neg wrong]
        refine Matches.bind_step (trace_like rfl machines) fun _ _ n n' _ machines => ?_
        by_cases full : setting.callLimit ≤ depth
        · simp only [if_pos full]
          exact .fail rfl loc loc' machines
        · simp only [if_neg full]
          exact (like.call functions sames machines).wrapped name loc loc'

theorem evaluate_alike {node node' : Node} (alike : node.Alike node') (machines : m.bare = m'.bare) :
    Matches Value.bare (evaluate setting (fuel + 1) depth f node m)
      fun steps => evaluate setting (steps + 1) depth f node' m' := by
  cases alike with
  | @call _ _ _ _ loc loc' called same => exact callNode_matches like loc loc' called same machines
  | @binary operator left left' right right' loc loc' first second =>
    have blind (steps : Nat) (a b : Value) : Blind (if b.isNull then fail .uninitialized right'.loc?
        else binary operator a b loc' : Run Value) := by
      split
      · exact fail_blind _ _
      · exact fun _ _ => binary_agrees operator a b loc'
    refine (like.evaluate first machines).bind (fun steps a => ?_) fun a a' n n' lefts machines => ?_
    · split
      · exact fail_blind _ _
      · exact (evaluate_blind setting steps depth f right').bind (blind steps a)
    have nulls : a.isNull = a'.isNull := Value.eq_of_bare Value.isNull_bare lefts
    cases empty : a.isNull with
    | true =>
      simp only [← nulls, empty]
      exact .fail rfl _ _ machines
    | false =>
      simp only [← nulls, empty]
      refine (like.evaluate second machines).bind (fun steps b => blind steps a' b) fun b b' n n' rights machines => ?_
      have nulls : b.isNull = b'.isNull := Value.eq_of_bare Value.isNull_bare rights
      cases empty : b.isNull with
      | true =>
        simp only [← nulls, empty]
        exact .fail rfl _ _ machines
      | false =>
        simp only [← nulls, empty]
        exact .of_bared (binary_like operator lefts rights loc loc' machines)
  | @assign name value value' loc loc' same =>
    refine (like.evaluate same machines).bind (fun steps v older n => ?_) fun v v' n n' values machines => ?_
    · exact (assign_agrees f name v _ loc').bind fun _ _ _ => .pure _
    · refine Matches.bind_step (assign_like (fun _ => rfl) values loc loc' machines) fun _ _ n n' _ machines => ?_
      exact .pure rfl machines
  | grouping same => exact like.evaluate same machines
  | intLiteral | realLiteral | strLiteral => exact .pure rfl machines
  | identifier => exact .of_bared (lookup_like _ _ machines)
  | @unary operator right right' loc loc' same =>
    refine (like.evaluate same machines).bind (fun _ _ _ _ => unary_agrees ..) fun v v' n n' values machines => ?_
    exact .of_bared (unary_like operator values loc loc' machines)
  | @logical operator left left' right right' loc loc' first second =>
    refine (like.evaluate first machines).bind (fun steps a => ?_) fun a a' n n' lefts machines => ?_
    · cases a with
      | bool a =>
        cases decided : isDecided operator a with
        | true =>
          simp only [decided, if_true]
          exact pure_blind _
        | false =>
          simp only [decided]
          exact evaluate_blind setting steps depth f right'
      | _ => exact fail_blind _ _
    · rcases Value.bool_or_of_bare lefts with ⟨a, rfl, rfl⟩ | ⟨other, other'⟩
      · cases decided : isDecided operator a with
        | true =>
          simp only [decided, if_true]
          exact .pure rfl machines
        | false =>
          simp only [decided]
          exact like.evaluate second machines
      · cases a with
        | bool a => exact absurd rfl (other a)
        | _ =>
          cases a' with
          | bool a' => exact absurd rfl (other' a')
          | _ => exact .fail rfl loc loc' machines
  | _ => exact .refuse _ machines

theorem evaluate_matches {node node' : Node} (same : node.bare = node'.bare) (machines : m.bare = m'.bare) :
    Matches Value.bare (evaluate setting (fuel + 1) depth f node m)
      fun steps => evaluate setting steps depth f node' m' := by
  have matched (opened : node.IsOpened) : Matches Value.bare (evaluate setting (fuel + 1) depth f node m)
      fun steps => evaluate setting steps depth f node' m' := by
    -- The other node may stand in parentheses.
    obtain ⟨inner, steps, opened', same', runs⟩ := node'.exists_opened setting
    have alike : Matches Value.bare (evaluate setting (fuel + 1) depth f node m)
        fun steps => evaluate setting steps depth f inner m' :=
      .shift 1 (evaluate_alike like (Node.alike_of_bare (same.trans same'.symm) opened opened') machines)
    refine .shift steps (alike.congr 0 fun fuel _ => ?_)
    rw [runs]
  cases node with
  | grouping expr loc =>
    cases inner : expr.isExpression with
    | true => exact like.evaluate ((Node.bare_grouping_eq inner).symm.trans same) machines
    | false => exact matched inner
  | _ => exact matched trivial

theorem execute_alike {node node' : Node} (alike : node.Alike node') (machines : m.bare = m'.bare) :
    Matches Completion.bare (execute setting (fuel + 1) depth f node m)
      fun steps => execute setting (steps + 1) depth f node' m' := by
  cases alike with
  | exprStmt same =>
    refine (like.evaluate same machines).bind (fun _ _ => pure_blind _) fun v v' n n' values machines => ?_
    refine .pure ?_ machines
    rw [Completion.ofValue_bare, Completion.ofValue_bare, values]
  | printStmt same =>
    refine (like.evaluate same machines).bind (fun steps v => ?_) fun v v' n n' values machines => ?_
    · exact (put_blind _).bind fun _ => pure_blind _
    · have texts : v.text = v'.text := Value.eq_of_bare Value.text_bare values
      refine Matches.bind_step (put_like (congrArg Output.printed texts) machines) fun _ _ n n' _ machines => ?_
      exact .pure rfl machines
  | @varDecl name value value' loc loc' same =>
    refine (like.initial same machines).bind (fun steps v => declaration_blind name v loc' _ _) ?_
    intro v v' n n' values machines
    have types : v.typeName = v'.typeName := Value.eq_of_bare Value.typeName_bare values
    have texts : v.text = v'.text := Value.eq_of_bare Value.text_bare values
    exact declaration_matches values loc loc' (congrArg₂ (Event.declared name.shown) types texts) machines
  | block same =>
    refine Matches.bind_step (newFrame_like f machines) fun inner inner' n n' frames machines => ?_
    cases frames
    exact like.executeAll same machines
  | @ifStmt condition condition' first first' second second' loc loc' asked taken other =>
    refine (like.evaluate asked machines).bind (fun steps v => ?_) fun v v' n n' values machines => ?_
    · cases v with
      | bool holds => exact (trace_blind setting _).bind fun _ => branch_blind setting steps depth f _
      | _ => exact fail_blind _ loc'
    · rcases Value.bool_or_of_bare values with ⟨holds, rfl, rfl⟩ | ⟨other, other'⟩
      · refine Matches.bind_step (trace_like rfl machines) fun _ _ n n' _ machines => ?_
        cases holds with
        | true => exact branch_matches like first first' taken machines
        | false => exact branch_matches like second second' other machines
      · cases v with
        | bool holds => exact absurd rfl (other holds)
        | _ =>
          cases v' with
          | bool holds => exact absurd rfl (other' holds)
          | _ => exact .fail rfl loc loc' machines
  | @whileStmt condition condition' body body' loc loc' asked same =>
    exact like.executeWhile loc loc' asked same machines
  | @forStmt placeholder placeholder' start stop body body' loc loc' declared same =>
    have names : placeholder.declaredName? = placeholder'.declaredName? := by
      rw [← Node.declaredName?_bare, declared, Node.declaredName?_bare]
    refine Matches.bind_step (newFrame_like f machines) fun inner inner' n n' frames machines => ?_
    cases frames
    refine (like.execute declared machines).bind (fun steps _ => ?_) fun c c' n n' _ machines => ?_
    · split
      · exact Blind.bind (fun _ _ => rangeOf_agrees start stop) fun range => answer_blind setting
          (.executeFor steps depth inner _ body' loc' range.start range.size)
      · exact fun _ _ => refuse_agrees _
    · simp only [← names]
      cases placeholder.declaredName? with
      | none => exact .refuse _ machines
      | some name =>
        refine Matches.bind_step (rangeOf_like start stop machines) fun range range' n n' ranges machines => ?_
        cases ranges
        exact like.executeFor loc loc' same machines
  | @fnDecl name params body body' loc loc' same =>
    have functions : (Value.fn ⟨name, params, body, f, loc⟩).bare = (Value.fn ⟨name, params, body', f, loc'⟩).bare :=
      congrArg (fun body => Value.fn ⟨name, params, body, f, none⟩) same
    exact declaration_matches functions loc loc' rfl machines
  | returnStmt same =>
    refine (like.initial same machines).bind (fun _ _ => pure_blind _) fun v v' n n' values machines => ?_
    exact .pure (congrArg Completion.returned values) machines
  | _ => exact .refuse _ machines

theorem execute_matches {node node' : Node} (same : node.bare = node'.bare) (machines : m.bare = m'.bare) :
    Matches Completion.bare (execute setting (fuel + 1) depth f node m)
      fun steps => execute setting (steps + 1) depth f node' m' := by
  have sorts : node.isStatement = node'.isStatement := by rw [← Node.isStatement_bare, same, Node.isStatement_bare]
  cases statement : node.isStatement with
  | true =>
    have statement' : node'.isStatement := sorts.symm.trans statement
    exact execute_alike like (Node.alike_of_bare same (Node.isOpened_of_isStatement statement)
      (Node.isOpened_of_isStatement statement')) machines
  | false =>
    have statement' : node'.isStatement = false := sorts.symm.trans statement
    rw [execute_refuses statement setting fuel depth f]
    exact (Matches.refuse _ machines).congr 0 fun steps _ => congrFun (execute_refuses statement' setting steps depth f) m'

theorem Likened.succ : Likened setting (fuel + 1) where
  execute same machines := .shift 1 (execute_matches like same machines)
  initial same machines := .shift 1 (initial_matches like same machines)
  executeAll same machines := .shift 1 (executeAll_matches like same machines)
  executeWhile loc loc' asked same machines := .shift 1 (executeWhile_matches like loc loc' asked same machines)
  executeFor loc loc' same machines := .shift 1 (executeFor_matches like loc loc' same machines)
  evaluate same machines := evaluate_matches like same machines
  evaluateAll same machines := .shift 1 (evaluateAll_matches like same machines)
  call same sames machines := .shift 1 (call_matches like same sames machines)

end Steps

/-- Runs match those of trees and values that are bare the same, for any number of steps. -/
theorem likened (setting : Setting) (fuel : Nat) : Likened setting fuel := by
  induction fuel with
  | zero => exact .zero
  | succ fuel ih => exact ih.succ

end Run

end PhyLang
