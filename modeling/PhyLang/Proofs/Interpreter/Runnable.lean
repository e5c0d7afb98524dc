import PhyLang.Proofs.Ast.Within
import PhyLang.Proofs.Interpreter.Outcome
import PhyLang.Proofs.Interpreter.Points
import PhyLang.Proofs.Value.Limits

namespace PhyLang

/-- What may be a name: anything but a list or an object. -/
def Json.IsKey (name : Json) : Prop := (Key.ofJson? name).isSome

/-- A range bound within the limits: an integer, or a truth value, which stands for zero or one. -/
def Limits.AdmitsBound (limits : Limits) : Json → Prop
  | .int n => limits.int n
  | .bool _ => True
  | _ => False

namespace Node

/-- Whether a node is an expression by its sort. -/
def isExpression : Node → Bool
  | .binary _ _ _ _ | .assign _ _ _ | .grouping _ _ | .intLiteral _ _ | .realLiteral _ _ | .strLiteral _ _
  | .identifier _ _ | .unary _ _ _ | .logical _ _ _ _ | .call _ _ _ => true
  | _ => false

/-- Whether a node is a statement by its sort. -/
def isStatement : Node → Bool
  | .absent => false
  | node => !node.isExpression

/-- An expression, or an empty place. -/
def IsOptionalExpression (node : Node) : Prop := node = .absent ∨ node.isExpression

/-- A statement, or an empty place. -/
def IsOptionalStatement (node : Node) : Prop := node = .absent ∨ node.isStatement

/-- Whether the places of a node hold what they ask for, within the limits. -/
def IsUsable (limits : Limits) : Node → Prop
  | .absent | .realLiteral _ _ => True
  | .exprStmt expr _ | .printStmt expr _ | .grouping expr _ | .unary _ expr _ => expr.isExpression
  | .varDecl name value _ => name.IsKey ∧ value.IsOptionalExpression
  | .block statements _ => ∀ statement ∈ statements, statement.isStatement
  | .ifStmt condition thenBranch elseBranch _ =>
    condition.isExpression ∧ thenBranch.IsOptionalStatement ∧ elseBranch.IsOptionalStatement
  | .whileStmt condition body _ => condition.isExpression ∧ body.isStatement
  | .forStmt placeholder start stop body _ =>
    placeholder.isStatement ∧ (∃ name, placeholder.declaredName? = some name ∧ name.IsKey) ∧
      limits.AdmitsBound start ∧ (stop = .null ∨ limits.AdmitsBound stop) ∧ body.isStatement
  | .fnDecl name params body _ =>
    name.IsKey ∧ (∀ param ∈ params, param.IsKey) ∧ ∀ statement ∈ body, statement.isStatement
  | .returnStmt value _ => value.IsOptionalExpression
  | .binary operator left right _ => operator.IsKey ∧ left.isExpression ∧ right.isExpression
  | .assign name value _ => name.IsKey ∧ value.isExpression
  | .intLiteral n _ => limits.int n
  | .strLiteral value _ => limits.Admits (.ofJson value)
  | .identifier name _ => name.IsKey
  | .logical _ left right _ => left.isExpression ∧ right.isExpression
  | .call callee args _ => callee.isExpression ∧ ∀ arg ∈ args, arg.isExpression

/-- Whether the places of all nodes within a tree hold what they ask for. Such a tree need not be one that
source text has: branches and bodies may be statements of any sort, operators and literals may be unknown
ones, and a placeholder may have a value. -/
def IsFit (limits : Limits) (root : Node) : Prop := ∀ node : Node, node.Within root → node.IsUsable limits

variable {limits : Limits} {parent inner : Node}

theorem IsFit.own (fit : parent.IsFit limits) : parent.IsUsable limits := fit parent (.same parent)

theorem IsFit.child (fit : parent.IsFit limits) (member : inner ∈ parent.children) : inner.IsFit limits :=
  fun node inside => fit node (inside.trans (.of_child member))

/-- A tree is fit if its root is usable and all below it is fit. -/
theorem isFit_iff {root : Node} :
    root.IsFit limits ↔ root.IsUsable limits ∧ ∀ child ∈ root.children, child.IsFit limits := by
  constructor
  · exact fun fit => ⟨fit.own, fun child member => fit.child member⟩
  · rintro ⟨own, inner⟩ node inside
    rcases inside.eq_or_child with rfl | ⟨child, member, inside⟩
    · exact own
    · exact inner child member node inside

end Node

/-- A program that can be run: statements whose places all hold what they ask for. -/
def Program.IsRunnable (limits : Limits) (program : Program) : Prop :=
  ∀ statement ∈ program, statement.isStatement ∧ statement.IsFit limits

namespace Node

variable {parts : Parts} {limits : Limits} {node : Node}

theorem IsExpression.sort (shape : node.IsExpression parts) : node.isExpression := by
  cases shape <;> rfl

theorem IsStatement.sort (shape : node.IsStatement parts) : node.isStatement := by
  cases shape <;> rfl

theorem isKey_of_isName {name : Json} (named : parts.IsName name) : name.IsKey := by
  obtain ⟨text, rfl, -⟩ := named
  rfl

theorem admitsBound_of_isBound {bound : Json} (ints : ∀ n, parts.int n → limits.int n) (bounded : parts.IsBound bound) :
    limits.AdmitsBound bound := by
  obtain ⟨n, rfl, allowed⟩ := bounded
  exact ints n allowed

theorem IsExpression.isUsable (ints : ∀ n, parts.int n → limits.int n) (shape : node.IsExpression parts) :
    node.IsUsable limits := by
  cases shape with
  | assign named inner _ => exact ⟨isKey_of_isName named, inner.sort⟩
  | logical _ first second _ => exact ⟨first.sort, second.sort⟩
  | binary _ first second _ => exact ⟨rfl, first.sort, second.sort⟩
  | unary _ inner _ | grouping inner _ => exact inner.sort
  | call called inner _ => exact ⟨called.sort, fun arg member => (inner arg member).sort⟩
  | intLiteral allowed _ => exact ints _ allowed
  | realLiteral _ => trivial
  | strLiteral _ => exact nofun
  | identifier named _ => exact isKey_of_isName named

theorem IsStatement.isUsable (ints : ∀ n, parts.int n → limits.int n) (shape : node.IsStatement parts) :
    node.IsUsable limits := by
  cases shape with
  | exprStmt inner _ | printStmt inner _ => exact inner.sort
  | varDecl named inner _ => exact ⟨isKey_of_isName named, .inr inner.sort⟩
  | emptyVarDecl named _ => exact ⟨isKey_of_isName named, .inl rfl⟩
  | block inner _ => exact fun statement member => (inner statement member).sort
  | ifStmt asked inner _ => exact ⟨asked.sort, .inr inner.sort, .inl rfl⟩
  | ifElseStmt asked inner _ alternative _ => exact ⟨asked.sort, .inr inner.sort, .inr alternative.sort⟩
  | whileStmt asked inner _ => exact ⟨asked.sort, inner.sort⟩
  | forStmt placeholder start stop inner _ =>
    exact ⟨placeholder.sort, ⟨_, rfl, isKey_of_isName placeholder.declaredValue.1⟩, admitsBound_of_isBound ints start,
      stop.imp_right (admitsBound_of_isBound ints), inner.sort⟩
  | fnDecl named namedParams inner _ =>
    exact ⟨isKey_of_isName named, fun param member => isKey_of_isName (namedParams param member),
      fun statement member => (inner statement member).sort⟩
  | returnStmt inner _ => exact .inr inner.sort
  | emptyReturnStmt _ => exact .inl rfl

/-- A statement of the language is fit, if its integers are within the limits. -/
theorem IsStatement.isFit (ints : ∀ n, parts.int n → limits.int n) (shape : node.IsStatement parts) :
    node.IsFit limits := by
  intro inner inside
  rcases IsPlaced.within (.inr (.inr shape)) inside with rfl | expression | statement
  · trivial
  · exact expression.isUsable ints
  · exact statement.isUsable ints

end Node

/-- A program in the shape of the language can be run, if its integers are within the limits. -/
theorem Program.isRunnable_of_shape {parts : Parts} {limits : Limits} {program : Program}
    (ints : ∀ n, parts.int n → limits.int n) (shape : ∀ statement ∈ program, statement.IsStatement parts) :
    program.IsRunnable limits :=
  fun statement member => ⟨(shape statement member).sort, (shape statement member).isFit ints⟩

/-- A value that a run may work with: an integer within the limits, a function that can be run, the clock, or
something that is no function. -/
def Value.IsTame (limits : Limits) : Value → Prop
  | .int n => limits.int n
  | .fn closure => (∀ param ∈ closure.params, param.IsKey) ∧ Program.IsRunnable limits closure.body
  | .native function => function = Machine.readClock
  | .callable | .signal _ => False
  | .real _ | .str _ | .bool _ | .null | .foreign _ => True

theorem Value.IsPlain.isTame {limits : Limits} {v : Value} (plain : v.IsPlain) (admits : limits.Admits v) :
    v.IsTame limits := by
  cases v with
  | int n => exact admits n rfl
  | fn | native | callable | signal => exact plain.elim
  | _ => trivial

theorem Value.IsTame.admits {limits : Limits} {v : Value} (tame : v.IsTame limits) : limits.Admits v := by
  rintro n rfl
  exact tame

/-- The end of a step on tame values: with a value of a kind and tame values only, with an error, or refused
for one of the faults. -/
def Limits.Bound {α : Type} (limits : Limits) (good : α → Prop) : EStateM.Result Stop Machine α → Prop
  | .ok a m => good a ∧ m.heap.Holds (Value.IsTame limits)
  | .error (.fault f) _ => limits.fault f
  | .error _ _ => True

namespace Limits.Bound

variable {α β : Type} {limits : Limits} {good : α → Prop} {m : Machine}

theorem bind {fine : β → Prop} {run : Run α} {next : α → Run β} (first : limits.Bound good (run m))
    (second : ∀ a m', good a → m'.heap.Holds (Value.IsTame limits) → limits.Bound fine (next a m')) :
    limits.Bound fine ((run >>= next) m) := by
  change limits.Bound fine (EStateM.bind run next m)
  unfold EStateM.bind
  cases ran : run m with
  | ok a m' =>
    rw [ran] at first
    exact second a m' first.1 first.2
  | error stop m' =>
    rw [ran] at first
    cases stop <;> exact first

theorem pure {a : α} (holds : good a) (heap : m.heap.Holds (Value.IsTame limits)) :
    limits.Bound good ((Pure.pure a : Run α) m) := ⟨holds, heap⟩

theorem wrapped {run : Run α} (name : String) (loc : Option Loc) (bound : limits.Bound good (run m)) :
    limits.Bound good (Run.wrapped name loc run m) := by
  unfold Run.wrapped
  split
  · trivial
  · exact bound

end Limits.Bound

namespace Run

variable {limits : Limits} {m : Machine} (heap : m.heap.Holds (Value.IsTame limits))
include heap

theorem trace_bound (setting : Setting) (event : Event) : limits.Bound (fun _ => True) (trace setting event m) := by
  unfold trace
  split <;> exact ⟨trivial, heap⟩

theorem newFrame_bound (parent : FrameId) : limits.Bound (fun _ => True) (newFrame parent m) :=
  ⟨trivial, heap.push (some parent)⟩

theorem declare_bound {name : Json} {v : Value} (key : name.IsKey) (tame : v.IsTame limits) (f : FrameId)
    (loc : Option Loc) : limits.Bound (fun _ => True) (declare f name v loc m) := by
  obtain ⟨key, keyed⟩ := Option.isSome_iff_exists.mp key
  unfold declare keyOf
  rw [keyed]
  change limits.Bound _ ((if m.heap.binds f key then fail (.declaredTwice _) loc
    else modify fun m => { m with heap := m.heap.bind f key v } : Run Unit) m)
  split
  · trivial
  · exact ⟨trivial, heap.bind f key tame⟩

theorem assign_bound {name : Json} {v : Value} (key : name.IsKey) (tame : v.IsTame limits) (f : FrameId)
    (missing : String → Cause) (loc : Option Loc) : limits.Bound (fun _ => True) (assign f name v missing loc m) := by
  obtain ⟨key, keyed⟩ := Option.isSome_iff_exists.mp key
  rw [assign_eq keyed]
  cases m.heap.holder? f key with
  | some holder => exact ⟨trivial, heap.rebind holder key tame⟩
  | none => trivial

theorem lookup_bound {name : Json} (key : name.IsKey) (f : FrameId) (loc : Option Loc) :
    limits.Bound (Value.IsTame limits) (lookup f name loc m) := by
  obtain ⟨key, keyed⟩ := Option.isSome_iff_exists.mp key
  cases reserved : reserved? key with
  | some v =>
    rw [lookup_reserved keyed reserved]
    refine ⟨?_, heap⟩
    unfold reserved? at reserved
    split at reserved <;> cases reserved <;> trivial
  | none =>
    rw [lookup_eq keyed reserved]
    cases found : m.heap.get? f key with
    | some v => exact ⟨heap.get? found, heap⟩
    | none => trivial

theorem operated_bound {result : Operated Value} (admitted : limits.AdmitsResult result)
    (cause : OperationError → Cause) (loc : Option Loc) :
    limits.Bound (Value.IsTame limits) (operated result cause loc m) := by
  unfold operated
  split
  · exact ⟨admitted.1.isTame admitted.2, heap⟩
  · trivial
  · exact admitted

theorem binary_bound (kept : limits.AreKept) {operator : Json} {left right : Value} (key : operator.IsKey)
    (first : left.IsTame limits) (second : right.IsTame limits) (loc : Option Loc) :
    limits.Bound (Value.IsTame limits) (binary operator left right loc m) := by
  unfold binary
  split
  · exact operated_bound heap (kept.operate _ first.admits second.admits) _ _
  · cases key
  · cases key
  · trivial

theorem unary_bound (kept : limits.AreKept) (operator : Json) {v : Value} (tame : v.IsTame limits) (loc : Option Loc) :
    limits.Bound (Value.IsTame limits) (unary operator v loc m) := by
  fun_cases unary operator v loc with
  | case6 => exact operated_bound heap (kept.negate _ tame.admits) _ _
  | _ => trivial

theorem boundOf_bound (kept : limits.AreKept) {bound : Json} (admits : limits.AdmitsBound bound) :
    limits.Bound limits.int (boundOf bound m) := by
  cases bound with
  | int n => exact ⟨admits, heap⟩
  | bool b =>
    cases b with
    | false => exact ⟨kept.zero, heap⟩
    | true => exact ⟨kept.one, heap⟩
  | _ => exact admits.elim

omit heap in
theorem size_between (kept : limits.AreKept) {first last : Int} (low : limits.int first) (high : limits.int last) :
    ∀ i < (IntRange.between first (some last)).size, limits.int (first + (i : Nat)) := by
  intro i below
  simp only [IntRange.between, IntRange.size] at below
  exact kept.between low high (by omega) (by omega)

theorem rangeOf_bound (kept : limits.AreKept) {start stop : Json} (first : limits.AdmitsBound start)
    (last : stop = .null ∨ limits.AdmitsBound stop) :
    limits.Bound (fun range => ∀ i < range.size, limits.int (range.start + (i : Nat))) (rangeOf start stop m) := by
  unfold rangeOf
  split
  · refine (boundOf_bound heap kept first).bind fun n m' admitted heap' => .pure (fun i below => ?_) heap'
    have counted := size_between kept kept.zero admitted i
    simp only [IntRange.between, IntRange.size] at below counted ⊢
    exact counted below
  · next present =>
    refine (boundOf_bound heap kept (last.resolve_left present)).bind fun n m' high heap' => ?_
    exact (boundOf_bound heap' kept first).bind fun k m'' low heap'' => .pure (size_between kept low high) heap''

theorem bindParams_bound {params : List Json} {args : List Value} (keys : ∀ param ∈ params, param.IsKey)
    (tame : ∀ arg ∈ args, arg.IsTame limits) (f : FrameId) (loc : Option Loc) :
    limits.Bound (fun _ => True) (bindParams f loc params args m) := by
  induction params generalizing args m with
  | nil => exact ⟨trivial, heap⟩
  | cons param params ih =>
    cases args with
    | nil => exact ⟨trivial, heap⟩
    | cons arg args =>
      have declared := declare_bound heap (keys param (List.mem_cons_self ..)) (tame arg (List.mem_cons_self ..)) f loc
      exact declared.bind fun _ m' _ heap' => ih heap' (fun other member => keys other (List.mem_cons_of_mem _ member))
        fun other member => tame other (List.mem_cons_of_mem _ member)

end Run

/-- Every run with an amount of fuel is bound by limits. -/
structure Limits.Bounded (limits : Limits) (setting : Setting) (fuel : Nat) : Prop where
  execute {depth : Nat} {f : FrameId} {node : Node} {m : Machine} : m.heap.Holds (Value.IsTame limits) →
    node.isStatement → node.IsFit limits →
    limits.Bound (fun c => c.given.IsTame limits) (Run.execute setting fuel depth f node m)
  initial {depth : Nat} {f : FrameId} {expr : Node} {m : Machine} : m.heap.Holds (Value.IsTame limits) →
    expr.IsOptionalExpression → expr.IsFit limits →
    limits.Bound (Value.IsTame limits) (Run.initial setting fuel depth f expr m)
  executeAll {depth : Nat} {f : FrameId} {nodes : Program} {m : Machine} : m.heap.Holds (Value.IsTame limits) →
    nodes.IsRunnable limits →
    limits.Bound (fun c => c.given.IsTame limits) (Run.executeAll setting fuel depth f nodes m)
  executeWhile {depth : Nat} {f : FrameId} {condition body : Node} {loc : Option Loc} {m : Machine} :
    m.heap.Holds (Value.IsTame limits) → condition.isExpression → condition.IsFit limits → body.isStatement →
    body.IsFit limits →
    limits.Bound (fun c => c.given.IsTame limits) (Run.executeWhile setting fuel depth f condition body loc m)
  executeFor {depth : Nat} {f : FrameId} {name : Json} {body : Node} {loc : Option Loc} {value : Int} {count : Nat}
      {m : Machine} : m.heap.Holds (Value.IsTame limits) → name.IsKey →
    (∀ i < count, limits.int (value + (i : Nat))) → body.isStatement → body.IsFit limits →
    limits.Bound (fun c => c.given.IsTame limits) (Run.executeFor setting fuel depth f name body loc value count m)
  evaluate {depth : Nat} {f : FrameId} {node : Node} {m : Machine} : m.heap.Holds (Value.IsTame limits) →
    node.isExpression → node.IsFit limits →
    limits.Bound (Value.IsTame limits) (Run.evaluate setting fuel depth f node m)
  evaluateAll {depth : Nat} {f : FrameId} {nodes : List Node} {m : Machine} : m.heap.Holds (Value.IsTame limits) →
    (∀ node ∈ nodes, node.isExpression ∧ node.IsFit limits) →
    limits.Bound (fun values => ∀ v ∈ values, v.IsTame limits) (Run.evaluateAll setting fuel depth f nodes m)
  call {depth : Nat} {callee : Value} {args : List Value} {m : Machine} : m.heap.Holds (Value.IsTame limits) →
    callee.IsTame limits → (∀ arg ∈ args, arg.IsTame limits) →
    limits.Bound (Value.IsTame limits) (Run.call setting fuel depth callee args m)

/-- A tame value is a function with an arity and a name, or cannot be called. -/
theorem Value.IsTame.callee_cases {limits : Limits} {v : Value} (tame : v.IsTame limits) :
    (∃ arity name, v.arity? = some arity ∧ Run.calleeName? v = some name) ∨
      v.arity? = none ∧ v.isCallable = false := by
  cases v with
  | fn | native => exact .inl ⟨_, _, rfl, rfl⟩
  | callable => exact tame.elim
  | _ => exact .inr ⟨rfl, rfl⟩

namespace Limits.Bounded

open Run

variable {limits : Limits} {setting : Setting} {fuel depth : Nat} {f : FrameId} {m : Machine}

theorem fnDecl_step (heap : m.heap.Holds (Value.IsTame limits)) {name : Json} {params : List Json} {body : List Node}
    {loc : Option Loc} (fit : (Node.fnDecl name params body loc).IsFit limits) :
    limits.Bound (fun c => c.given.IsTame limits)
      (Run.execute setting (fuel + 1) depth f (.fnDecl name params body loc) m) := by
  obtain ⟨key, keys, sorts⟩ := fit.own
  have tame : (Value.fn ⟨name, params, body, f, loc⟩).IsTame limits :=
    ⟨keys, fun statement member => ⟨sorts statement member, fit.child member⟩⟩
  unfold Run.execute
  refine (declare_bound heap key tame f loc).bind fun _ m' _ heap' => ?_
  exact (trace_bound heap' setting _).bind fun _ m'' _ heap'' => .pure trivial heap''

section Steps

variable (kept : limits.AreKept) (bounded : limits.Bounded setting fuel) (heap : m.heap.Holds (Value.IsTame limits))

include kept bounded heap

theorem binary_step {operator : Json} {left right : Node} {loc : Option Loc}
    (fit : (Node.binary operator left right loc).IsFit limits) :
    limits.Bound (Value.IsTame limits)
      (Run.evaluate setting (fuel + 1) depth f (.binary operator left right loc) m) := by
  obtain ⟨key, first, second⟩ := fit.own
  unfold Run.evaluate
  refine (bounded.evaluate heap first (fit.child (List.mem_cons_self ..))).bind fun a m' tame heap' => ?_
  split
  · trivial
  · refine (bounded.evaluate heap' second (fit.child (by simp [Node.children]))).bind fun b m'' tame' heap'' => ?_
    split
    · trivial
    · exact binary_bound heap'' kept key tame tame' loc

omit kept in
theorem logical_step {operator : Json} {left right : Node} {loc : Option Loc}
    (fit : (Node.logical operator left right loc).IsFit limits) :
    limits.Bound (Value.IsTame limits)
      (Run.evaluate setting (fuel + 1) depth f (.logical operator left right loc) m) := by
  obtain ⟨first, second⟩ := fit.own
  unfold Run.evaluate
  refine (bounded.evaluate heap first (fit.child (List.mem_cons_self ..))).bind fun a m' _ heap' => ?_
  cases a with
  | bool a =>
    dsimp only
    split
    · exact .pure trivial heap'
    · exact bounded.evaluate heap' second (fit.child (by simp [Node.children]))
  | _ => trivial

omit kept in
theorem call_step {callee : Node} {args : List Node} {loc : Option Loc}
    (fit : (Node.call callee args loc).IsFit limits) :
    limits.Bound (Value.IsTame limits) (Run.evaluate setting (fuel + 1) depth f (.call callee args loc) m) := by
  obtain ⟨called, given⟩ := fit.own
  have fitArgs : ∀ arg ∈ args, arg.isExpression ∧ arg.IsFit limits := fun arg member =>
    ⟨given arg member, fit.child (List.mem_cons_of_mem _ member)⟩
  unfold Run.evaluate
  refine (bounded.evaluate heap called (fit.child (List.mem_cons_self ..))).bind fun function m' tame heap' => ?_
  refine (bounded.evaluateAll heap' fitArgs).bind fun values m'' tames heap'' => ?_
  rcases tame.callee_cases with ⟨arity, name, accepts, named⟩ | ⟨accepts, uncallable⟩
  · rw [accepts, named]
    dsimp only
    split
    · trivial
    · refine (trace_bound heap'' setting _).bind fun _ m''' _ heap''' => ?_
      split
      · trivial
      · exact .wrapped name loc (bounded.call heap''' tame tames)
  · rw [accepts, uncallable]
    trivial

theorem evaluate_step {node : Node} (sort : node.isExpression) (fit : node.IsFit limits) :
    limits.Bound (Value.IsTame limits) (Run.evaluate setting (fuel + 1) depth f node m) := by
  cases node with
  | binary => exact binary_step kept bounded heap fit
  | logical => exact logical_step bounded heap fit
  | call => exact call_step bounded heap fit
  | assign name value loc =>
    obtain ⟨key, inner⟩ := fit.own
    unfold Run.evaluate
    refine (bounded.evaluate heap inner (fit.child (List.mem_cons_self ..))).bind fun v m' tame heap' => ?_
    exact (assign_bound heap' key tame f _ _).bind fun _ m'' _ heap'' => .pure trivial heap''
  | grouping => exact bounded.evaluate heap fit.own (fit.child (List.mem_cons_self ..))
  | intLiteral => exact .pure fit.own heap
  | realLiteral => exact .pure trivial heap
  | strLiteral value => exact .pure ((Value.ofJson_isPlain value).isTame fit.own) heap
  | identifier => exact lookup_bound heap fit.own f _
  | unary operator right loc =>
    unfold Run.evaluate
    refine (bounded.evaluate heap fit.own (fit.child (List.mem_cons_self ..))).bind fun v m' tame heap' => ?_
    exact unary_bound heap' kept operator tame loc
  | _ => cases sort

omit kept in
theorem initial_step {expr : Node} (sort : expr.IsOptionalExpression) (fit : expr.IsFit limits) :
    limits.Bound (Value.IsTame limits) (Run.initial setting (fuel + 1) depth f expr m) := by
  rcases sort with rfl | sort
  · exact .pure trivial heap
  · cases expr with
    | absent => cases sort
    | _ => exact bounded.evaluate heap sort fit

omit kept in
theorem evaluateAll_step {nodes : List Node} (fit : ∀ node ∈ nodes, node.isExpression ∧ node.IsFit limits) :
    limits.Bound (fun values => ∀ v ∈ values, v.IsTame limits)
      (Run.evaluateAll setting (fuel + 1) depth f nodes m) := by
  cases nodes with
  | nil => exact .pure (List.forall_mem_nil _) heap
  | cons node rest =>
    obtain ⟨⟨sort, fitNode⟩, fitRest⟩ := List.forall_mem_cons.mp fit
    unfold Run.evaluateAll
    refine (bounded.evaluate heap sort fitNode).bind fun v m' tame heap' => ?_
    refine (bounded.evaluateAll heap' fitRest).bind fun values m'' tames heap'' => ?_
    exact .pure (List.forall_mem_cons.mpr ⟨tame, tames⟩) heap''

omit kept in
theorem varDecl_step {name : Json} {value : Node} {loc : Option Loc}
    (fit : (Node.varDecl name value loc).IsFit limits) :
    limits.Bound (fun c => c.given.IsTame limits)
      (Run.execute setting (fuel + 1) depth f (.varDecl name value loc) m) := by
  obtain ⟨key, sort⟩ := fit.own
  unfold Run.execute
  refine (bounded.initial heap sort (fit.child (List.mem_cons_self ..))).bind fun v m' tame heap' => ?_
  refine (declare_bound heap' key tame f loc).bind fun _ m'' _ heap'' => ?_
  exact (trace_bound heap'' setting _).bind fun _ m''' _ heap''' => .pure trivial heap'''

omit kept in
theorem branch_step : (branch : Node) → branch.IsOptionalStatement → branch.IsFit limits →
    limits.Bound (fun c => c.given.IsTame limits)
      ((match branch with
        | .absent => return .value .null
        | branch => Run.execute setting fuel depth f branch : Run Completion) m) := by
  intro branch sort fit
  rcases sort with rfl | sort
  · exact .pure trivial heap
  · cases branch with
    | absent => cases sort
    | _ => exact bounded.execute heap sort fit

omit kept in
theorem ifStmt_step {condition thenBranch elseBranch : Node} {loc : Option Loc}
    (fit : (Node.ifStmt condition thenBranch elseBranch loc).IsFit limits) :
    limits.Bound (fun c => c.given.IsTame limits)
      (Run.execute setting (fuel + 1) depth f (.ifStmt condition thenBranch elseBranch loc) m) := by
  obtain ⟨asked, first, second⟩ := fit.own
  unfold Run.execute
  refine (bounded.evaluate heap asked (fit.child (List.mem_cons_self ..))).bind fun v m' _ heap' => ?_
  cases v with
  | bool taken =>
    refine (trace_bound heap' setting _).bind fun _ m'' _ heap'' => ?_
    cases taken with
    | true => exact branch_step bounded heap'' _ first (fit.child (by simp [Node.children]))
    | false => exact branch_step bounded heap'' _ second (fit.child (by simp [Node.children]))
  | _ => trivial

theorem forStmt_step {placeholder body : Node} {start stop : Json} {loc : Option Loc}
    (fit : (Node.forStmt placeholder start stop body loc).IsFit limits) :
    limits.Bound (fun c => c.given.IsTame limits)
      (Run.execute setting (fuel + 1) depth f (.forStmt placeholder start stop body loc) m) := by
  obtain ⟨sort, ⟨name, declared, key⟩, first, last, inner⟩ := fit.own
  unfold Run.execute
  refine (newFrame_bound heap f).bind fun g m' _ heap' => ?_
  refine (bounded.execute heap' sort (fit.child (List.mem_cons_self ..))).bind fun _ m'' _ heap'' => ?_
  rw [declared]
  refine (rangeOf_bound heap'' kept first last).bind fun range m''' counted heap''' => ?_
  exact bounded.executeFor heap''' key counted inner (fit.child (by simp [Node.children]))

theorem execute_step {node : Node} (sort : node.isStatement) (fit : node.IsFit limits) :
    limits.Bound (fun c => c.given.IsTame limits) (Run.execute setting (fuel + 1) depth f node m) := by
  cases node with
  | varDecl => exact varDecl_step bounded heap fit
  | ifStmt => exact ifStmt_step bounded heap fit
  | forStmt => exact forStmt_step kept bounded heap fit
  | fnDecl => exact fnDecl_step heap fit
  | exprStmt expr loc =>
    unfold Run.execute
    refine (bounded.evaluate heap fit.own (fit.child (List.mem_cons_self ..))).bind fun v m' tame heap' => ?_
    cases v with
    | signal => exact tame.elim
    | _ => exact .pure tame heap'
  | printStmt expr loc =>
    unfold Run.execute
    refine (bounded.evaluate heap fit.own (fit.child (List.mem_cons_self ..))).bind fun v m' tame heap' => ?_
    exact ⟨trivial, heap'⟩
  | block nodes loc =>
    unfold Run.execute
    refine (newFrame_bound heap f).bind fun g m' _ heap' => ?_
    exact bounded.executeAll heap' fun statement member => ⟨fit.own statement member, fit.child member⟩
  | whileStmt condition body loc =>
    exact bounded.executeWhile heap fit.own.1 (fit.child (List.mem_cons_self ..)) fit.own.2
      (fit.child (by simp [Node.children]))
  | returnStmt value loc =>
    unfold Run.execute
    refine (bounded.initial heap fit.own (fit.child (List.mem_cons_self ..))).bind fun v m' tame heap' => ?_
    exact .pure tame heap'
  | _ => cases sort

omit kept in
theorem executeAll_step {nodes : Program} (runnable : nodes.IsRunnable limits) :
    limits.Bound (fun c => c.given.IsTame limits) (Run.executeAll setting (fuel + 1) depth f nodes m) := by
  cases nodes with
  | nil => exact .pure trivial heap
  | cons node rest =>
    obtain ⟨⟨sort, fit⟩, others⟩ := List.forall_mem_cons.mp runnable
    unfold Run.executeAll
    refine (bounded.execute heap sort fit).bind fun c m' tame heap' => ?_
    cases c with
    | returned v => exact .pure tame heap'
    | value v => exact bounded.executeAll heap' others

omit kept in
theorem executeWhile_step {condition body : Node} {loc : Option Loc} (asked : condition.isExpression)
    (fitCondition : condition.IsFit limits) (inner : body.isStatement) (fitBody : body.IsFit limits) :
    limits.Bound (fun c => c.given.IsTame limits)
      (Run.executeWhile setting (fuel + 1) depth f condition body loc m) := by
  unfold Run.executeWhile
  refine (bounded.evaluate heap asked fitCondition).bind fun v m' _ heap' => ?_
  cases v with
  | bool holds =>
    cases holds with
    | false => exact .pure trivial heap'
    | true =>
      refine (bounded.execute heap' inner fitBody).bind fun c m'' tame heap'' => ?_
      cases c with
      | returned v => exact .pure tame heap''
      | value v => exact bounded.executeWhile heap'' asked fitCondition inner fitBody
  | _ => trivial

omit kept in
theorem executeFor_step {name : Json} {body : Node} {loc : Option Loc} {value : Int} {count : Nat} (key : name.IsKey)
    (counted : ∀ i < count, limits.int (value + (i : Nat))) (inner : body.isStatement) (fit : body.IsFit limits) :
    limits.Bound (fun c => c.given.IsTame limits)
      (Run.executeFor setting (fuel + 1) depth f name body loc value count m) := by
  cases count with
  | zero => exact .pure trivial heap
  | succ count =>
    have first : limits.int value := by simpa using counted 0 (by omega)
    -- What is left to count through starts one further.
    have rest : ∀ i < count, limits.int (value + 1 + (i : Nat)) := by
      intro i below
      have next := counted (i + 1) (by omega)
      rwa [Nat.cast_add, Nat.cast_one, add_comm (i : Int), ← add_assoc] at next
    unfold Run.executeFor
    refine (assign_bound (v := .int value) heap key first f _ _).bind fun _ m' _ heap' => ?_
    refine (trace_bound heap' setting _).bind fun _ m'' _ heap'' => ?_
    refine (bounded.execute heap'' inner fit).bind fun c m''' tame heap''' => ?_
    cases c with
    | returned v => exact .pure tame heap'''
    | value v => exact bounded.executeFor heap''' key rest inner fit

omit kept in
theorem function_step {callee : Value} {args : List Value} (tame : callee.IsTame limits)
    (tames : ∀ arg ∈ args, arg.IsTame limits) :
    limits.Bound (Value.IsTame limits) (Run.call setting (fuel + 1) depth callee args m) := by
  cases callee with
  | fn closure =>
    unfold Run.call
    refine (newFrame_bound heap closure.frame).bind fun g m' _ heap' => ?_
    refine (bindParams_bound heap' tame.1 tames g closure.loc).bind fun _ m'' _ heap'' => ?_
    refine (bounded.executeAll heap'' tame.2).bind fun c m''' given heap''' => ?_
    cases c with
    | returned v => exact .pure given heap'''
    | value v => exact .pure trivial heap'''
  | native function =>
    cases tame
    exact ⟨trivial, heap⟩
  | callable => exact tame.elim
  | _ => trivial

end Steps

/-- Every run of code that can be run is bound by limits that operations keep. -/
theorem of_areKept (kept : limits.AreKept) (setting : Setting) (fuel : Nat) : limits.Bounded setting fuel := by
  induction fuel with
  | zero =>
    constructor
    all_goals
      intros
      trivial
  | succ fuel ih =>
    exact {
      execute := fun heap => execute_step kept ih heap
      initial := fun heap => initial_step ih heap
      executeAll := fun heap => executeAll_step ih heap
      executeWhile := fun heap => executeWhile_step ih heap
      executeFor := fun heap => executeFor_step ih heap
      evaluate := fun heap => evaluate_step kept ih heap
      evaluateAll := fun heap => evaluateAll_step ih heap
      call := fun heap => function_step ih heap }

end Limits.Bounded

/-- The run of a program that can be run is bound by limits that operations keep. -/
theorem Run.interpretFrom_bound {limits : Limits} (kept : limits.AreKept) (setting : Setting) (fuel : Nat)
    {program : Program} (runnable : program.IsRunnable limits) {m : Machine}
    (heap : m.heap.Holds (Value.IsTame limits)) (result : Value) :
    limits.Bound (fun _ => True) (interpretFrom setting fuel result program m) := by
  induction program generalizing m result with
  | nil => exact ⟨trivial, heap⟩
  | cons node rest ih =>
    obtain ⟨⟨sort, fit⟩, others⟩ := List.forall_mem_cons.mp runnable
    have bounded := Limits.Bounded.of_areKept kept setting fuel
    refine (bounded.execute heap sort fit).bind fun c m' _ heap' => ?_
    cases c with
    | returned v => trivial
    | value v => exact ih others heap' v

/-- A program that can be run on a fresh machine is refused only for one of the faults. -/
theorem Run.interpret_bound {limits : Limits} (kept : limits.AreKept) (setting : Setting) (fuel : Nat)
    {program : Program} (runnable : program.IsRunnable limits) {clock : Clock} {f : Fault} {m : Machine}
    (refused : interpret setting fuel program (Machine.initial [] clock) = .error (.fault f) m) : limits.fault f := by
  have bound := interpretFrom_bound kept setting fuel runnable (Machine.initial_holds clock rfl) .null
  unfold interpret at refused
  rw [refused] at bound
  exact bound

end PhyLang
