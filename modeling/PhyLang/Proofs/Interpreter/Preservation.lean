import PhyLang.Proofs.Interpreter.Invariant
import PhyLang.Proofs.Interpreter.Points

namespace PhyLang

/-- A statement that declares nothing in the frame in which it runs, and runs no other statement there. -/
def Node.OpensFrames : Node → Prop
  | .varDecl _ _ _ | .ifStmt _ _ _ _ | .whileStmt _ _ _ | .fnDecl _ _ _ _ => False
  | _ => True

namespace Invariant

variable {Place : Type}

/-- All runs with an amount of fuel keep an invariant. -/
structure Preserved (I : Invariant Place) (setting : Setting) (fuel : Nat) : Prop where
  execute {place : Place} {depth : Nat} {f : FrameId} {node : Node} {m : Machine} : I.heap m.heap →
    I.writes m.heap.size f → I.node place node →
    I.Keeps (I.error place) (fun n c => I.value n c.given) m.heap.size (Run.execute setting fuel depth f node m)
  initial {place : Place} {depth : Nat} {f : FrameId} {expr : Node} {m : Machine} : I.heap m.heap →
    I.reads m.heap.size f → I.node place expr →
    I.Keeps (I.error place) I.value m.heap.size (Run.initial setting fuel depth f expr m)
  executeAll {place : Place} {depth : Nat} {f : FrameId} {nodes : List Node} {m : Machine} : I.heap m.heap →
    I.writes m.heap.size f → (∀ node ∈ nodes, I.node place node) →
    I.Keeps (I.error place) (fun n c => I.value n c.given) m.heap.size (Run.executeAll setting fuel depth f nodes m)
  executeWhile {place : Place} {depth : Nat} {f : FrameId} {condition body : Node} {loc : Option Loc} {m : Machine} :
    I.heap m.heap → I.writes m.heap.size f → I.node place condition → I.node place body → I.loc place loc →
    I.Keeps (I.error place) (fun n c => I.value n c.given) m.heap.size
      (Run.executeWhile setting fuel depth f condition body loc m)
  executeFor {place : Place} {depth : Nat} {f : FrameId} {name : Json} {body : Node} {loc : Option Loc} {value : Int}
      {count : Nat} {m : Machine} : I.heap m.heap → I.writes m.heap.size f → I.node place body → I.loc place loc →
    I.Keeps (I.error place) (fun n c => I.value n c.given) m.heap.size
      (Run.executeFor setting fuel depth f name body loc value count m)
  evaluate {place : Place} {depth : Nat} {f : FrameId} {node : Node} {m : Machine} : I.heap m.heap →
    I.reads m.heap.size f → I.node place node →
    I.Keeps (I.error place) I.value m.heap.size (Run.evaluate setting fuel depth f node m)
  evaluateAll {place : Place} {depth : Nat} {f : FrameId} {nodes : List Node} {m : Machine} : I.heap m.heap →
    I.reads m.heap.size f → (∀ node ∈ nodes, I.node place node) →
    I.Keeps (I.error place) (fun n values => ∀ v ∈ values, I.value n v) m.heap.size
      (Run.evaluateAll setting fuel depth f nodes m)
  call {depth : Nat} {function : Value} {name : String} {args : List Value} {m : Machine} : I.heap m.heap →
    I.value m.heap.size function → (∀ arg ∈ args, I.value m.heap.size arg) → Run.calleeName? function = some name →
    I.Keeps (I.thrown function) I.value m.heap.size (Run.call setting fuel depth function args m)

variable {I : Invariant Place} {place : Place} {setting : Setting} {fuel depth : Nat} {f : FrameId} {m : Machine}

/-- An empty place has no value. -/
theorem evaluate_present {node : Node} {v : Value} {m' : Machine}
    (evaluated : Run.evaluate setting fuel depth f node m = .ok v m') : node ≠ .absent := by
  rintro rfl
  cases fuel <;> cases evaluated

theorem fnDecl_step {name : Json} {params : List Json} {body : List Node} {loc : Option Loc} (heap : I.heap m.heap)
    (writable : I.writes m.heap.size f) (code : I.node place (.fnDecl name params body loc)) :
    I.Keeps (I.error place) (fun n c => I.value n c.given) m.heap.size
      (Run.execute setting (fuel + 1) depth f (.fnDecl name params body loc) m) := by
  unfold Run.execute
  refine (declare_keeps name heap writable (I.closure code writable) (I.located code (by simp))).bind
    fun _ m' _ heap' _ _ => ?_
  exact (trace_keeps setting _ heap').bind fun _ m'' _ heap'' _ _ => Keeps.pure heap'' (I.plain trivial)

section Steps

variable (preserved : I.Preserved setting fuel)
include preserved

theorem binary_step {operator : Json} {left right : Node} {loc : Option Loc} (heap : I.heap m.heap)
    (readable : I.reads m.heap.size f) (code : I.node place (.binary operator left right loc)) :
    I.Keeps (I.error place) I.value m.heap.size
      (Run.evaluate setting (fuel + 1) depth f (.binary operator left right loc) m) := by
  have codeLeft := I.child code (List.mem_cons_self ..)
  have codeRight := I.child code (List.mem_cons_of_mem _ (List.mem_cons_self ..))
  unfold Run.evaluate
  refine (preserved.evaluate heap readable codeLeft).bind fun a m' evaluated heap' grown _ => ?_
  split
  next => exact fail_keeps heap' trivial (I.located codeLeft (evaluate_present evaluated))
  next =>
    refine (preserved.evaluate heap' (I.reads_mono grown readable) codeRight).bind fun b m'' evaluated' heap'' _ _ => ?_
    split
    next => exact fail_keeps heap'' trivial (I.located codeRight (evaluate_present evaluated'))
    next => exact binary_keeps operator a b heap'' (I.located code (by simp))

theorem logical_step {operator : Json} {left right : Node} {loc : Option Loc} (heap : I.heap m.heap)
    (readable : I.reads m.heap.size f) (code : I.node place (.logical operator left right loc)) :
    I.Keeps (I.error place) I.value m.heap.size
      (Run.evaluate setting (fuel + 1) depth f (.logical operator left right loc) m) := by
  have codeLeft := I.child code (List.mem_cons_self ..)
  have codeRight := I.child code (List.mem_cons_of_mem _ (List.mem_cons_self ..))
  unfold Run.evaluate
  refine (preserved.evaluate heap readable codeLeft).bind fun a m' _ heap' grown _ => ?_
  cases a with
  | bool a =>
    dsimp only
    split
    next => exact Keeps.pure heap' (I.plain trivial)
    next => exact preserved.evaluate heap' (I.reads_mono grown readable) codeRight
  | _ => exact fail_keeps heap' trivial (I.located code (by simp))

theorem call_step {callee : Node} {args : List Node} {loc : Option Loc} (heap : I.heap m.heap)
    (readable : I.reads m.heap.size f) (code : I.node place (.call callee args loc)) :
    I.Keeps (I.error place) I.value m.heap.size
      (Run.evaluate setting (fuel + 1) depth f (.call callee args loc) m) := by
  have located := I.located code (by simp)
  have codeArgs : ∀ arg ∈ args, I.node place arg := fun arg member => I.child code (List.mem_cons_of_mem _ member)
  unfold Run.evaluate
  refine (preserved.evaluate heap readable (I.child code (List.mem_cons_self ..))).bind
    fun function m' _ heap' grown known => ?_
  refine (preserved.evaluateAll heap' (I.reads_mono grown readable) codeArgs).bind fun values m'' _ heap'' grown' holds => ?_
  have knownThere := I.value_mono grown' known
  have uncalled : I.Keeps (I.error place) I.value m''.heap.size
      ((if function.isCallable then Run.refuse .bareCallable
        else Run.fail (.notCallable function.typeName) loc : Run Value) m'') := by
    split
    next => exact refuse_keeps _ heap''
    next => exact fail_keeps heap'' trivial located
  cases function.arity? with
  | none => exact uncalled
  | some expected =>
    cases named : Run.calleeName? function with
    | none => exact uncalled
    | some name =>
      dsimp only
      split
      next => exact fail_keeps heap'' trivial located
      next =>
        refine (trace_keeps setting _ heap'').bind fun _ m''' _ heap''' grown'' _ => ?_
        split
        next => exact fail_keeps heap''' trivial located
        next =>
          have there := I.value_mono grown'' knownThere
          refine wrapped_keeps code there named (preserved.call heap''' there ?_ named)
          exact fun arg member => I.value_mono grown'' (holds arg member)

theorem evaluate_step {node : Node} (heap : I.heap m.heap) (readable : I.reads m.heap.size f)
    (code : I.node place node) :
    I.Keeps (I.error place) I.value m.heap.size (Run.evaluate setting (fuel + 1) depth f node m) := by
  cases node with
  | binary => exact binary_step preserved heap readable code
  | logical => exact logical_step preserved heap readable code
  | call => exact call_step preserved heap readable code
  | assign name value loc =>
    unfold Run.evaluate
    refine (preserved.evaluate heap readable (I.child code (List.mem_cons_self ..))).bind
      fun v m' _ heap' grown known => ?_
    have assigned := assign_keeps name heap' (I.reads_mono grown readable) known
      (fun shown => show (Cause.undefinedAssignment shown).IsOwn from trivial) (I.located code (by simp))
    exact assigned.bind fun _ m'' _ heap'' _ _ => Keeps.pure heap'' (I.plain trivial)
  | grouping expr loc => exact preserved.evaluate heap readable (I.child code (List.mem_cons_self ..))
  | intLiteral | realLiteral => exact Keeps.pure heap (I.plain trivial)
  | strLiteral value => exact Keeps.pure heap (I.plain (Value.ofJson_isPlain value))
  | identifier name loc => exact lookup_keeps name heap readable (I.located code (by simp))
  | unary operator right loc =>
    unfold Run.evaluate
    refine (preserved.evaluate heap readable (I.child code (List.mem_cons_self ..))).bind fun v m' _ heap' _ _ => ?_
    exact unary_keeps operator v heap' (I.located code (by simp))
  | _ => exact refuse_keeps _ heap

theorem initial_step {expr : Node} (heap : I.heap m.heap) (readable : I.reads m.heap.size f)
    (code : I.node place expr) :
    I.Keeps (I.error place) I.value m.heap.size (Run.initial setting (fuel + 1) depth f expr m) := by
  cases expr with
  | absent => exact Keeps.pure heap (I.plain trivial)
  | _ => exact preserved.evaluate heap readable code

theorem evaluateAll_step {nodes : List Node} (heap : I.heap m.heap) (readable : I.reads m.heap.size f)
    (code : ∀ node ∈ nodes, I.node place node) :
    I.Keeps (I.error place) (fun n values => ∀ v ∈ values, I.value n v) m.heap.size
      (Run.evaluateAll setting (fuel + 1) depth f nodes m) := by
  cases nodes with
  | nil => exact Keeps.pure heap (List.forall_mem_nil _)
  | cons node rest =>
    have codeRest : ∀ other ∈ rest, I.node place other := fun other member => code other (List.mem_cons_of_mem _ member)
    unfold Run.evaluateAll
    refine (preserved.evaluate heap readable (code node (List.mem_cons_self ..))).bind fun v m' _ heap' grown known => ?_
    refine (preserved.evaluateAll heap' (I.reads_mono grown readable) codeRest).bind
      fun values m'' _ heap'' grown' holds => ?_
    exact Keeps.pure heap'' (List.forall_mem_cons.mpr ⟨I.value_mono grown' known, holds⟩)

theorem varDecl_step {name : Json} {value : Node} {loc : Option Loc} (heap : I.heap m.heap)
    (writable : I.writes m.heap.size f) (code : I.node place (.varDecl name value loc)) :
    I.Keeps (I.error place) (fun n c => I.value n c.given) m.heap.size
      (Run.execute setting (fuel + 1) depth f (.varDecl name value loc) m) := by
  unfold Run.execute
  refine (preserved.initial heap (I.reads_of_writes writable) (I.child code (List.mem_cons_self ..))).bind
    fun v m' _ heap' grown known => ?_
  refine (declare_keeps name heap' (I.writes_mono grown writable) known (I.located code (by simp))).bind
    fun _ m'' _ heap'' _ _ => ?_
  exact (trace_keeps setting _ heap'').bind fun _ m''' _ heap''' _ _ => Keeps.pure heap''' (I.plain trivial)

/-- A branch that is missing does nothing. -/
theorem branch_step (heap : I.heap m.heap) (writable : I.writes m.heap.size f) : (branch : Node) →
    I.node place branch → I.Keeps (I.error place) (fun n c => I.value n c.given) m.heap.size
      ((match branch with
        | .absent => return .value .null
        | branch => Run.execute setting fuel depth f branch : Run Completion) m) := by
  intro branch code
  cases branch with
  | absent => exact Keeps.pure heap (I.plain trivial)
  | _ => exact preserved.execute heap writable code

theorem ifStmt_step {condition thenBranch elseBranch : Node} {loc : Option Loc} (heap : I.heap m.heap)
    (writable : I.writes m.heap.size f) (code : I.node place (.ifStmt condition thenBranch elseBranch loc)) :
    I.Keeps (I.error place) (fun n c => I.value n c.given) m.heap.size
      (Run.execute setting (fuel + 1) depth f (.ifStmt condition thenBranch elseBranch loc) m) := by
  have codeThen : I.node place thenBranch := I.child code (List.mem_cons_of_mem _ (List.mem_cons_self ..))
  have codeElse : I.node place elseBranch := I.child code (by simp [Node.children])
  unfold Run.execute
  refine (preserved.evaluate heap (I.reads_of_writes writable) (I.child code (List.mem_cons_self ..))).bind
    fun v m' _ heap' grown _ => ?_
  cases v with
  | bool taken =>
    refine (trace_keeps setting _ heap').bind fun _ m'' _ heap'' grown' _ => ?_
    have writable' := I.writes_mono (grown.trans grown') writable
    cases taken with
    | true => exact branch_step preserved heap'' writable' thenBranch codeThen
    | false => exact branch_step preserved heap'' writable' elseBranch codeElse
  | _ => exact fail_keeps heap' trivial (I.located code (by simp))

theorem forStmt_step {placeholder body : Node} {start stop : Json} {loc : Option Loc} (heap : I.heap m.heap)
    (readable : I.reads m.heap.size f) (code : I.node place (.forStmt placeholder start stop body loc)) :
    I.Keeps (I.error place) (fun n c => I.value n c.given) m.heap.size
      (Run.execute setting (fuel + 1) depth f (.forStmt placeholder start stop body loc) m) := by
  have codeBody := I.child code (List.mem_cons_of_mem _ (List.mem_cons_self ..))
  unfold Run.execute
  refine (newFrame_keeps heap readable).bind fun inner m' _ heap' _ fresh => ?_
  refine (preserved.execute heap' fresh (I.child code (List.mem_cons_self ..))).bind fun c m'' _ heap'' grown _ => ?_
  cases placeholder.declaredName? with
  | none => exact refuse_keeps _ heap''
  | some name =>
    refine (rangeOf_keeps start stop heap'').bind fun range m''' _ heap''' grown' _ => ?_
    exact preserved.executeFor heap''' (I.writes_mono (grown.trans grown') fresh) codeBody (I.located code (by simp))

theorem block_step {nodes : List Node} {loc : Option Loc} (heap : I.heap m.heap) (readable : I.reads m.heap.size f)
    (code : I.node place (.block nodes loc)) :
    I.Keeps (I.error place) (fun n c => I.value n c.given) m.heap.size
      (Run.execute setting (fuel + 1) depth f (.block nodes loc) m) := by
  unfold Run.execute
  refine (newFrame_keeps heap readable).bind fun inner m' _ heap' _ fresh => ?_
  exact preserved.executeAll heap' fresh fun node member => I.child code member

/-- Statements that are no declarations and in which none stands in the same frame only read in that frame. -/
theorem reading_step {node : Node} (heap : I.heap m.heap) (readable : I.reads m.heap.size f)
    (code : I.node place node) (apart : node.OpensFrames) :
    I.Keeps (I.error place) (fun n c => I.value n c.given) m.heap.size
      (Run.execute setting (fuel + 1) depth f node m) := by
  cases node with
  | exprStmt expr loc =>
    unfold Run.execute
    refine (preserved.evaluate heap readable (I.child code (List.mem_cons_self ..))).bind fun v m' _ heap' _ known => ?_
    cases v with
    | signal v => exact Keeps.pure heap' (I.signal known)
    | _ => exact Keeps.pure heap' known
  | printStmt expr loc =>
    unfold Run.execute
    refine (preserved.evaluate heap readable (I.child code (List.mem_cons_self ..))).bind fun v m' _ heap' _ _ => ?_
    exact (put_keeps _ heap').bind fun _ m'' _ heap'' _ _ => Keeps.pure heap'' (I.plain trivial)
  | block => exact block_step preserved heap readable code
  | forStmt => exact forStmt_step preserved heap readable code
  | returnStmt value loc =>
    unfold Run.execute
    exact (preserved.initial heap readable (I.child code (List.mem_cons_self ..))).bind
      fun v m' _ heap' _ known => Keeps.pure heap' known
  | varDecl | ifStmt | whileStmt | fnDecl => exact apart.elim
  | _ => exact refuse_keeps _ heap

theorem execute_step {node : Node} (heap : I.heap m.heap) (writable : I.writes m.heap.size f)
    (code : I.node place node) :
    I.Keeps (I.error place) (fun n c => I.value n c.given) m.heap.size
      (Run.execute setting (fuel + 1) depth f node m) := by
  cases node with
  | varDecl => exact varDecl_step preserved heap writable code
  | ifStmt => exact ifStmt_step preserved heap writable code
  | whileStmt condition body loc =>
    exact preserved.executeWhile heap writable (I.child code (List.mem_cons_self ..))
      (I.child code (List.mem_cons_of_mem _ (List.mem_cons_self ..))) (I.located code (by simp))
  | fnDecl => exact fnDecl_step heap writable code
  | _ => exact reading_step preserved heap (I.reads_of_writes writable) code trivial

theorem executeAll_step {nodes : List Node} (heap : I.heap m.heap) (writable : I.writes m.heap.size f)
    (code : ∀ node ∈ nodes, I.node place node) :
    I.Keeps (I.error place) (fun n c => I.value n c.given) m.heap.size
      (Run.executeAll setting (fuel + 1) depth f nodes m) := by
  cases nodes with
  | nil => exact Keeps.pure heap (I.plain trivial)
  | cons node rest =>
    unfold Run.executeAll
    refine (preserved.execute heap writable (code node (List.mem_cons_self ..))).bind fun c m' _ heap' grown known => ?_
    cases c with
    | returned v => exact Keeps.pure heap' known
    | value v =>
      exact preserved.executeAll heap' (I.writes_mono grown writable)
        fun other member => code other (List.mem_cons_of_mem _ member)

theorem executeWhile_step {condition body : Node} {loc : Option Loc} (heap : I.heap m.heap)
    (writable : I.writes m.heap.size f) (asked : I.node place condition) (code : I.node place body)
    (located : I.loc place loc) :
    I.Keeps (I.error place) (fun n c => I.value n c.given) m.heap.size
      (Run.executeWhile setting (fuel + 1) depth f condition body loc m) := by
  unfold Run.executeWhile
  refine (preserved.evaluate heap (I.reads_of_writes writable) asked).bind fun v m' _ heap' grown _ => ?_
  cases v with
  | bool holds =>
    cases holds with
    | false => exact Keeps.pure heap' (I.plain trivial)
    | true =>
      have writable' := I.writes_mono grown writable
      refine (preserved.execute heap' writable' code).bind fun c m'' _ heap'' grown' known => ?_
      cases c with
      | returned v => exact Keeps.pure heap'' known
      | value v => exact preserved.executeWhile heap'' (I.writes_mono grown' writable') asked code located
  | _ => exact fail_keeps heap' trivial located

theorem executeFor_step {name : Json} {body : Node} {loc : Option Loc} {value : Int} {count : Nat}
    (heap : I.heap m.heap) (writable : I.writes m.heap.size f) (code : I.node place body)
    (located : I.loc place loc) :
    I.Keeps (I.error place) (fun n c => I.value n c.given) m.heap.size
      (Run.executeFor setting (fuel + 1) depth f name body loc value count m) := by
  cases count with
  | zero => exact Keeps.pure heap (I.plain trivial)
  | succ count =>
    unfold Run.executeFor
    have counter : I.value m.heap.size (.int value) := I.plain trivial
    have own : ∀ shown, (Cause.lostPlaceholder shown).IsOwn := fun _ => trivial
    refine (assign_keeps name heap (I.reads_of_writes writable) counter own located).bind fun _ m' _ heap' grown _ => ?_
    refine (trace_keeps setting _ heap').bind fun _ m'' _ heap'' grown' _ => ?_
    have writable' := I.writes_mono (grown.trans grown') writable
    refine (preserved.execute heap'' writable' code).bind fun c m''' _ heap''' grown'' known => ?_
    cases c with
    | returned v => exact Keeps.pure heap''' known
    | value v => exact preserved.executeFor heap''' (I.writes_mono grown'' writable') code located

theorem function_step {function : Value} {name : String} {args : List Value} (heap : I.heap m.heap)
    (known : I.value m.heap.size function) (holds : ∀ arg ∈ args, I.value m.heap.size arg)
    (named : Run.calleeName? function = some name) :
    I.Keeps (I.thrown function) I.value m.heap.size (Run.call setting (fuel + 1) depth function args m) := by
  cases function with
  | fn closure =>
    obtain ⟨home, code, located, comesOut⟩ := I.body known
    have inside : I.Keeps (I.error home) I.value m.heap.size
        (Run.call setting (fuel + 1) depth (.fn closure) args m) := by
      unfold Run.call
      refine (newFrame_keeps heap (I.captured known)).bind fun inner m' _ heap' grown fresh => ?_
      have holds' : ∀ arg ∈ args, I.value m'.heap.size arg := fun arg member => I.value_mono grown (holds arg member)
      refine (bindParams_keeps located heap' fresh holds').bind fun _ m'' _ heap'' grown' _ => ?_
      refine (preserved.executeAll heap'' (I.writes_mono grown' fresh) code).bind fun c m''' _ heap''' _ given => ?_
      cases c with
      | returned v => exact Keeps.pure heap''' given
      | value v =>
        have null : I.value m'''.heap.size .null := I.plain trivial
        exact Keeps.pure heap''' null
    exact inside.weaken comesOut
  | native function => exact runNative_keeps heap known holds
  | _ => cases named

end Steps

/-- Every run keeps every invariant. -/
theorem preserved (I : Invariant Place) (setting : Setting) (fuel : Nat) : I.Preserved setting fuel := by
  induction fuel with
  | zero =>
    constructor
    all_goals
      intros
      exact stop_keeps (by simp) ‹_›
  | succ fuel ih =>
    exact {
      execute := execute_step ih
      initial := initial_step ih
      executeAll := executeAll_step ih
      executeWhile := executeWhile_step ih
      executeFor := executeFor_step ih
      evaluate := evaluate_step ih
      evaluateAll := evaluateAll_step ih
      call := function_step ih }

end Invariant

end PhyLang
