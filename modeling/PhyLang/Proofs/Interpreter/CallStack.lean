import PhyLang.Proofs.Grammar.Parse
import PhyLang.Proofs.Interpreter.Preservation

namespace PhyLang

/-- The second node stands somewhere in the trees of a list. -/
def Node.In (roots : List Node) (node : Node) : Prop := ∃ root ∈ roots, node.Within root

theorem Node.In.within {roots : List Node} {node root : Node} (present : In roots root) (inside : node.Within root) :
    In roots node := by
  obtain ⟨top, member, deep⟩ := present
  exact ⟨top, member, inside.trans deep⟩

theorem Node.In.mono {roots more : List Node} {node : Node} (inside : In roots node)
    (roots_in : ∀ root ∈ roots, In more root) : In more node := by
  obtain ⟨root, member, deep⟩ := inside
  exact (roots_in root member).within deep

/-- An error of the code of a place: it arose at a node of the code, or in a function of the program that was called
at a node of the code. -/
inductive RuntimeError.Arises (program : Program) : List Node → RuntimeError → Prop
  | raised {place : List Node} {node : Node} {cause : Cause} (own : cause.IsOwn) (code : Node.In place node)
      (present : node ≠ .absent) : Arises program place (.raised cause node.loc?)
  | inCall {place : List Node} {callee : Node} {args : List Node} {loc declared : Option Loc} {name : String}
      {params : List Json} {body : List Node} {inner : RuntimeError} (code : Node.In place (.call callee args loc))
      (known : Node.In program (.fnDecl (.str name) params body declared))
      (arises : Arises program [.fnDecl (.str name) params body declared] inner) :
      Arises program place (.inCall name inner loc)

/-- A value whose functions are declared in a program, besides the clock. -/
def Value.IsDeclaredIn (program : Program) : Value → Prop
  | .fn closure => Node.In program (.fnDecl closure.name closure.params closure.body closure.loc)
  | .native function => function = Machine.readClock
  | .callable | .signal _ => False
  | _ => True

/-- The errors that come out of a call of a value. -/
def Value.Throws (program : Program) : Value → RuntimeError → Prop
  | .fn closure, e => e.Arises program [.fnDecl closure.name closure.params closure.body closure.loc]
  | _, _ => False

namespace Invariant

/-- A call wraps an error of a function by the name that the function was declared with. -/
theorem throws_inCall {parts : Parts} {program : Program} (shape : ∀ node ∈ program, node.IsStatement parts)
    {place : List Node} {callee : Node} {args : List Node} {loc : Option Loc} {function : Value} {name : String}
    {e : RuntimeError} (code : Node.In place (.call callee args loc)) (declared : function.IsDeclaredIn program)
    (named : Run.calleeName? function = some name) (out : function.Throws program e) :
    (RuntimeError.inCall name e loc).Arises program place := by
  cases function with
  | fn closure =>
    obtain ⟨root, member, inside⟩ := declared
    have placed : Node.IsPlaced parts root := .inr (.inr (shape root member))
    rcases placed.within inside with absent | expression | statement
    · cases absent
    · cases expression
    · cases statement with
      | fnDecl isName _ _ _ =>
        obtain ⟨text, spelled, -⟩ := isName
        have same : name = text := by
          rw [← Option.some.inj named, spelled]
          rfl
        subst same
        simp only [Value.Throws, spelled] at out inside
        exact .inCall code ⟨root, member, inside⟩ out
  | _ => exact out.elim

/-- What the runs of a program keep. -/
def callStack {parts : Parts} {program : Program} (shape : ∀ node ∈ program, node.IsStatement parts) :
    Invariant (List Node) where
  heap h := h.Holds (Value.IsDeclaredIn program)
  value _ := Value.IsDeclaredIn program
  reads _ _ := True
  writes _ _ := True
  node place node := Node.In place node ∧ ∀ root ∈ place, Node.In program root
  loc place loc := ∃ node, Node.In place node ∧ node ≠ .absent ∧ node.loc? = loc
  error place e := e.Arises program place
  thrown := Value.Throws program
  value_mono _ := id
  reads_mono _ := id
  writes_mono _ := id
  reads_of_writes := id
  push holds _ := ⟨holds.push _, trivial⟩
  bind holds _ _ declared := holds.bind _ _ declared
  rebind holds _ _ declared := holds.rebind _ _ declared
  get holds _ found := holds.get? found
  plain {_ v} plain := by
    cases v with
    | fn | native | callable | signal => exact plain.elim
    | _ => trivial
  signal declared := declared.elim
  closure code _ := code.1.mono code.2
  captured _ := trivial
  body {_ c} declared := by
    have same : Node.In [.fnDecl c.name c.params c.body c.loc] (.fnDecl c.name c.params c.body c.loc) :=
      ⟨_, List.mem_singleton_self _, .same _⟩
    refine ⟨_, fun statement member => ⟨?_, ?_⟩, ⟨_, same, by simp, rfl⟩, fun _ => id⟩
    · exact same.within (.of_child member)
    · exact List.forall_mem_singleton.mpr declared
  native declared failing := by
    cases declared
    cases failing
  child code member := ⟨code.1.within (.of_child member), code.2⟩
  located code present := ⟨_, code.1, present, rfl⟩
  raised own located := by
    obtain ⟨node, code, present, rfl⟩ := located
    exact .raised own code present
  inCall code declared named out := throws_inCall shape code.1 declared named out

/-- A program fails with an error of its own code, or because it returns outside of functions. -/
theorem interpretFrom_keeps {parts : Parts} {program : Program} (shape : ∀ node ∈ program, node.IsStatement parts)
    (setting : Setting) (fuel : Nat) {rest : List Node} (among : ∀ node ∈ rest, node ∈ program) {result : Value}
    {m : Machine} (holds : m.heap.Holds (Value.IsDeclaredIn program)) :
    (callStack shape).Keeps (fun e => e.Arises program program ∨ ∃ v, e = .raised (.returned v) none) (fun _ _ => True)
      m.heap.size (Run.interpretFrom setting fuel result rest m) := by
  induction rest generalizing result m with
  | nil => exact Keeps.pure holds trivial
  | cons node rest ih =>
    have code : (callStack shape).node program node :=
      ⟨⟨node, among node (List.mem_cons_self ..), .same node⟩, fun root member => ⟨root, member, .same root⟩⟩
    have ran : (callStack shape).Keeps (RuntimeError.Arises program program)
        (fun _ c => c.given.IsDeclaredIn program) m.heap.size (Run.execute setting fuel 0 globalFrame node m) :=
      ((callStack shape).preserved setting fuel).execute holds trivial code
    refine (ran.weaken fun e arises => .inl arises).bind fun c m' _ holds' _ _ => ?_
    cases c with
    | value v => exact ih (fun other member => among other (List.mem_cons_of_mem _ member)) holds'
    | returned v =>
      refine ⟨holds', le_rfl, fun e same => ?_⟩
      cases same
      exact .inr ⟨v, rfl⟩

end Invariant

/-- What goes wrong inside of a run is neither a call nor a return. -/
theorem Cause.IsOwn.kind_ne {cause : Cause} (own : cause.IsOwn) : cause.kind ≠ "CallError" ∧ cause.kind ≠ "Return" := by
  cases cause with
  | host | returned => exact own.elim
  | _ => simp [Cause.kind]

namespace RuntimeError

/-- The error inside of an error. -/
def inner? : RuntimeError → Option RuntimeError
  | .raised _ _ => none
  | .inCall _ inner _ => some inner

/-- An error and the errors inside of it, from the outermost on. -/
def chain : RuntimeError → List RuntimeError
  | .raised cause loc => [.raised cause loc]
  | .inCall name inner loc => .inCall name inner loc :: inner.chain

theorem chain_eq_cons (e : RuntimeError) : ∃ inside, e.chain = e :: inside := by
  cases e <;> exact ⟨_, rfl⟩

/-- The first error stands for a call of a function of a program in which the second arose. -/
structure IsCallOf (program : Program) (outer inner : RuntimeError) : Prop where
  kind : outer.kind = "CallError"
  inside : outer.inner? = some inner
  /-- A call stands where the outer error is located. -/
  site : ∃ callee args, Node.In program (.call callee args outer.loc?)
  /-- The message names the function, and the inner error is located in its declaration. -/
  callee : ∃ name params body declared, Node.In program (.fnDecl (.str name) params body declared) ∧
    outer.message = "in " ++ name ++ ": " ++ inner.text ∧
    ∃ node : Node, node.Within (.fnDecl (.str name) params body declared) ∧ node ≠ .absent ∧ inner.loc? = node.loc?

/-- The chain of an error is a stack of calls of functions of a program. -/
structure IsCallStack (program : Program) (e : RuntimeError) : Prop where
  calls : e.chain.IsChain (IsCallOf program)
  /-- The innermost error is not that of a call. -/
  bottom : ∀ last ∈ e.chain.getLast?, last.kind ≠ "CallError" ∧ last.inner? = none
  /-- Every error has a location, unless it is alone and that of a value returned outside of functions. -/
  located : (∀ part ∈ e.chain, part.kind ≠ "Return" ∧ part.loc?.isSome) ∨
    e.chain = [e] ∧ e.kind = "Return" ∧ e.loc? = none

namespace Arises

variable {program : Program} {place : List Node} {e : RuntimeError}

/-- An error is located at a node of the code where it arose. -/
theorem node (arises : e.Arises program place) : ∃ node, Node.In place node ∧ node ≠ .absent ∧ e.loc? = node.loc? := by
  cases arises with
  | raised _ code present => exact ⟨_, code, present, rfl⟩
  | inCall code _ _ => exact ⟨_, code, by simp, rfl⟩

theorem kind_ne_return (arises : e.Arises program place) : e.kind ≠ "Return" := by
  cases arises with
  | raised own _ _ => exact own.kind_ne.2
  | inCall _ _ _ => exact (by decide : "CallError" ≠ "Return")

theorem calls (arises : e.Arises program place) (inProgram : ∀ root ∈ place, Node.In program root) :
    e.chain.IsChain (IsCallOf program) := by
  induction arises with
  | raised _ _ _ => exact .singleton _
  | @inCall place callee args loc declared name params body inner code known arises ih =>
    have deeper := ih (List.forall_mem_singleton.mpr known)
    obtain ⟨node, ⟨root, member, inside⟩, present, located⟩ := arises.node
    cases List.mem_singleton.mp member
    have call : IsCallOf program (.inCall name inner loc) inner :=
      ⟨rfl, rfl, ⟨callee, args, code.mono inProgram⟩, name, params, body, declared, known, rfl, node, inside, present,
        located⟩
    obtain ⟨rest, same⟩ := inner.chain_eq_cons
    rw [same] at deeper
    rw [chain, same]
    exact List.isChain_cons_cons.mpr ⟨call, deeper⟩

theorem bottom (arises : e.Arises program place) :
    ∀ last ∈ e.chain.getLast?, last.kind ≠ "CallError" ∧ last.inner? = none := by
  induction arises with
  | raised own _ _ =>
    intro last final
    cases final
    exact ⟨own.kind_ne.1, rfl⟩
  | @inCall _ _ _ _ _ _ _ _ inner _ _ _ ih =>
    obtain ⟨rest, same⟩ := inner.chain_eq_cons
    rw [same] at ih
    rw [chain, same, List.getLast?_cons_cons]
    exact ih

/-- Every error of a chain arose in the code of a function, or where the outermost did. -/
theorem parts (arises : e.Arises program place) (inProgram : ∀ root ∈ place, Node.In program root) :
    ∀ part ∈ e.chain, ∃ home, part.Arises program home ∧ ∀ root ∈ home, Node.In program root := by
  induction arises with
  | raised own code present => exact List.forall_mem_singleton.mpr ⟨_, .raised own code present, inProgram⟩
  | inCall code known arises ih =>
    exact List.forall_mem_cons.mpr ⟨⟨_, .inCall code known arises, inProgram⟩, ih (List.forall_mem_singleton.mpr known)⟩

end Arises

end RuntimeError

/-- Locations that are present, and names and integers of any kind. -/
def Parts.located : Parts := ⟨fun _ => True, fun _ => True, fun loc => loc.isSome⟩

/-- Every node of a program that parsing gives has a location. -/
theorem Program.parse_located {source : String} {program : Program} (parsed : Program.parse source = .ok program) :
    ∀ statement ∈ program, statement.IsStatement Parts.located := by
  obtain ⟨-, -, derived⟩ := parse_ok parsed
  exact derived.isStatement ⟨Token.scan_spelled, fun _ _ _ => trivial, fun _ _ _ => trivial, fun _ _ _ _ => rfl⟩

/-- If a program fails, the chain of its error is a stack of calls. -/
theorem Run.interpret_isCallStack {source : String} {program : Program} (parsed : Program.parse source = .ok program)
    {setting : Setting} {fuel : Nat} {clock : Clock} {e : RuntimeError} {m : Machine}
    (failed : interpret setting fuel program (Machine.initial [] clock) = .error (.error e) m) :
    e.IsCallStack program := by
  have shape := Program.parse_located parsed
  have keeps : (Invariant.callStack shape).Keeps _ _ _ (interpret setting fuel program (Machine.initial [] clock)) :=
    Invariant.interpretFrom_keeps shape setting fuel (fun _ member => member) (Machine.initial_holds clock rfl)
  rw [failed] at keeps
  have roots : ∀ root ∈ program, Node.In program root := fun root member => ⟨root, member, .same root⟩
  rcases keeps.2.2 e rfl with arises | ⟨v, rfl⟩
  · refine ⟨arises.calls roots, arises.bottom, .inl fun part member => ?_⟩
    obtain ⟨home, there, inProgram⟩ := arises.parts roots part member
    obtain ⟨node, code, present, located⟩ := there.node
    obtain ⟨root, inRoot, inside⟩ := code.mono inProgram
    have placed : root.IsPlaced Parts.located := .inr (.inr (shape root inRoot))
    refine ⟨there.kind_ne_return, ?_⟩
    rw [located]
    exact (placed.within inside).located present
  · refine ⟨.singleton _, ?_, .inr ⟨rfl, rfl, rfl⟩⟩
    intro last final
    cases final
    exact ⟨(by decide : "Return" ≠ "CallError"), rfl⟩

theorem Run.fails_nested :
    (match Program.parse "fn f(n) \x7bfn g() \x7breturn 1 + n\x7d\nreturn g()\x7d\nf(null)" with
      | .ok program =>
        match interpret {} 20 program (Machine.initial []) with
        | .error (.error e) _ => e.chain.length == 3
        | _ => false
      | .error _ => false) = true := by
  decide +kernel

/-- A sum that fails two calls deep, in a function that the outer function declares. -/
theorem Run.interpret_isCallStack_nested :
    ∃ program e m, Program.parse "fn f(n) \x7bfn g() \x7breturn 1 + n\x7d\nreturn g()\x7d\nf(null)" = .ok program ∧
      interpret {} 20 program (Machine.initial []) = .error (.error e) m ∧ e.chain.length = 3 ∧
      e.IsCallStack program := by
  have ran := fails_nested
  split at ran
  next program parsed =>
    split at ran
    next e m failed => exact ⟨program, e, m, parsed, failed, eq_of_beq ran, interpret_isCallStack parsed failed⟩
    next => cases ran
  next => cases ran

end PhyLang
