import PhyLang.Proofs.Interpreter.Preservation
import PhyLang.Proofs.Scope.Names

namespace PhyLang

/-- What runs keep that declare names in frames made since then only. -/
def Invariant.scopes (before : Heap) : Invariant Unit where
  heap h := before.Extends h Heap.noNames
  value _ _ := True
  reads _ _ := True
  writes _ f := before.size ≤ f
  node _ _ := True
  loc _ _ := True
  error _ _ := True
  thrown _ _ := True
  value_mono _ := id
  reads_mono _ := id
  writes_mono _ := id
  reads_of_writes _ := trivial
  push extended _ := ⟨extended.push _, extended.grown⟩
  bind extended new _ _ := extended.modify_new new _
  rebind extended _ _ _ := extended.rebind _ _ _
  get _ _ _ := trivial
  plain _ := trivial
  signal _ := trivial
  closure _ _ := trivial
  captured _ := trivial
  body _ := ⟨(), fun _ _ => trivial, trivial, fun _ => id⟩
  native _ _ := trivial
  child _ _ := trivial
  located _ _ := trivial
  raised _ _ := trivial
  inCall _ _ _ _ := trivial

/-- The names that a statement declares in the frame in which it runs. -/
def Node.declares (node : Node) : List Key := (node.declaredName?.bind Key.ofJson?).toList

namespace Run

/-- The heap that a run leaves has the names it had, and certain names more if the run succeeds. -/
def Declares {α : Type} (before : Heap) (more : FrameId → List Key) : EStateM.Result Stop Machine α → Prop
  | .ok _ m => before.Extends m.heap more
  | .error _ m => before.Extends m.heap Heap.noNames

variable {α β : Type} {before : Heap} {more : FrameId → List Key} {m : Machine}

theorem declares_of_keeps {thrown : RuntimeError → Prop} {good : Nat → α → Prop} {n : Nat}
    {result : EStateM.Result Stop Machine α} (keeps : (Invariant.scopes before).Keeps thrown good n result) :
    Declares before Heap.noNames result := by
  cases result with
  | ok a m => exact keeps.1
  | error stop m => exact keeps.1

theorem Declares.bind {run : Run α} {next : α → Run β} (first : Declares before Heap.noNames (run m))
    (second : ∀ a m', before.Extends m'.heap Heap.noNames → Declares m'.heap more (next a m')) :
    Declares before more ((run >>= next) m) := by
  change Declares before more (EStateM.bind run next m)
  unfold EStateM.bind
  cases ran : run m with
  | ok a m' =>
    rw [ran] at first
    have later := second a m' first
    simp only
    cases ranNext : next a m' with
    | ok b m'' =>
      rw [ranNext] at later
      exact first.trans later
    | error stop m'' =>
      rw [ranNext] at later
      exact first.trans later
  | error stop m' =>
    rw [ran] at first
    exact first

variable {setting : Setting} {fuel depth : Nat} {f : FrameId}

theorem evaluate_declares (expr : Node) :
    Declares m.heap Heap.noNames (evaluate setting fuel depth f expr m) := by
  have code : (Invariant.scopes m.heap).node () expr := trivial
  exact declares_of_keeps ((Invariant.preserved _ setting fuel).evaluate (.refl _) trivial code)

theorem initial_declares (expr : Node) :
    Declares m.heap Heap.noNames (initial setting fuel depth f expr m) := by
  have code : (Invariant.scopes m.heap).node () expr := trivial
  exact declares_of_keeps ((Invariant.preserved _ setting fuel).initial (.refl _) trivial code)

theorem exhausted_declares : Declares m.heap Heap.noNames ((throw .exhausted : Run α) m) :=
  .refl _

/-- Blocks and loops over ranges declare in frames of their own, and the other simple statements nowhere. -/
theorem opensFrames_declares {node : Node} (apart : node.OpensFrames) :
    Declares m.heap Heap.noNames (execute setting fuel depth f node m) := by
  have code : (Invariant.scopes m.heap).node () node := trivial
  cases fuel with
  | zero => exact exhausted_declares
  | succ fuel =>
    have preserved := Invariant.preserved (.scopes m.heap) setting fuel
    exact declares_of_keeps (Invariant.reading_step preserved (.refl _) trivial code apart)

theorem trace_declares (event : Event) : Declares m.heap Heap.noNames (trace setting event m) := by
  unfold trace
  split
  · exact Heap.Extends.refl _
  · exact Heap.Extends.refl _

/-- What comes after a declaration and leaves the frames alone does not undo it. -/
theorem Declares.bind_quiet {run : Run α} {next : α → Run β} (first : Declares before more (run m))
    (quiet : ∀ a m', ∃ b m'', next a m' = .ok b m'' ∧ m''.heap = m'.heap) :
    Declares before more ((run >>= next) m) := by
  change Declares before more (EStateM.bind run next m)
  unfold EStateM.bind
  cases ran : run m with
  | ok a m' =>
    rw [ran] at first
    obtain ⟨b, m'', ranNext, same⟩ := quiet a m'
    simp only [ranNext]
    exact (congrArg (before.Extends · more) same).mpr first
  | error stop m' =>
    rw [ran] at first
    exact first

theorem declare_declares (name : Json) (value : Value) (loc : Option Loc) :
    Declares m.heap (Heap.namesIn f (Key.ofJson? name).toList) (declare f name value loc m) := by
  unfold declare keyOf
  cases Key.ofJson? name with
  | none => exact Heap.Extends.refl _
  | some key =>
    change Declares m.heap (Heap.namesIn f [key]) ((if m.heap.binds f key then fail (.declaredTwice name.shown) loc
      else modify fun m => { m with heap := m.heap.bind f key value } : Run Unit) m)
    split
    next => exact Heap.Extends.refl _
    next => exact (Heap.Extends.refl m.heap).bind f key value

/-- A declaration that is noted in the trace. -/
theorem declaration_declares (name : Json) (value : Value) (loc : Option Loc) (event : Event) (c : Completion) :
    Declares m.heap (Heap.namesIn f (Key.ofJson? name).toList)
      ((do declare f name value loc; trace setting event; return c : Run Completion) m) := by
  refine (declare_declares name value loc).bind_quiet fun _ m' => ?_
  unfold trace
  split
  · exact ⟨_, _, rfl, rfl⟩
  · exact ⟨_, _, rfl, rfl⟩

/-- A loop declares nothing if its body does not. -/
theorem executeWhile_declares {condition body : Node} {loc : Option Loc}
    (quiet : ∀ fuel m, Declares m.heap Heap.noNames (execute setting fuel depth f body m)) :
    Declares m.heap Heap.noNames (executeWhile setting fuel depth f condition body loc m) := by
  induction fuel generalizing m with
  | zero => exact exhausted_declares
  | succ fuel ih =>
    unfold executeWhile
    refine (evaluate_declares condition).bind fun v m' _ => ?_
    cases v with
    | bool holds =>
      cases holds with
      | false => exact Heap.Extends.refl _
      | true =>
        refine (quiet fuel m').bind fun c m'' _ => ?_
        cases c with
        | returned v => exact Heap.Extends.refl _
        | value v => exact ih
    | _ => exact Heap.Extends.refl _

/-- A branch declares nothing if it is missing or declares nothing itself. -/
theorem branch_declares : (branch : Node) →
    (branch ≠ .absent → ∀ m, Declares m.heap Heap.noNames (execute setting fuel depth f branch m)) →
    Declares m.heap Heap.noNames ((match branch with
      | .absent => return .value .null
      | branch => execute setting fuel depth f branch : Run Completion) m) := by
  intro branch quiet
  cases branch with
  | absent => exact Heap.Extends.refl _
  | _ => exact quiet (by simp) m

theorem ifStmt_declares {condition thenBranch elseBranch : Node} {loc : Option Loc}
    (quietThen : ∀ m, Declares m.heap Heap.noNames (execute setting fuel depth f thenBranch m))
    (quietElse : elseBranch ≠ .absent → ∀ m, Declares m.heap Heap.noNames (execute setting fuel depth f elseBranch m)) :
    Declares m.heap Heap.noNames
      (execute setting (fuel + 1) depth f (.ifStmt condition thenBranch elseBranch loc) m) := by
  unfold execute
  refine (evaluate_declares condition).bind fun v m' _ => ?_
  cases v with
  | bool taken =>
    refine (trace_declares _).bind fun _ m'' _ => ?_
    cases taken with
    | true => exact branch_declares thenBranch fun _ => quietThen
    | false => exact branch_declares elseBranch quietElse
  | _ => exact Heap.Extends.refl _

/-- A statement declares what it says, in the frame in which it runs, and nothing else there. -/
theorem execute_declares {parts : Parts} {node : Node} (shape : node.IsStatement parts) :
    Declares m.heap (Heap.namesIn f node.declares) (execute setting fuel depth f node m) := by
  -- Only a condition runs a statement that may be no block in its own frame: its alternative.
  induction fuel generalizing node m with
  | zero => exact Heap.Extends.refl _
  | succ fuel ih =>
    cases shape with
    | exprStmt | printStmt | block | forStmt | returnStmt | emptyReturnStmt =>
      exact Heap.namesIn_nil f ▸ opensFrames_declares trivial
    | varDecl | emptyVarDecl =>
      unfold execute
      exact (initial_declares _).bind fun v m' _ => declaration_declares ..
    | fnDecl =>
      unfold execute
      exact declaration_declares ..
    | whileStmt =>
      unfold execute
      exact Heap.namesIn_nil f ▸ executeWhile_declares fun fuel m => opensFrames_declares trivial
    | ifStmt =>
      exact Heap.namesIn_nil f ▸ ifStmt_declares (fun m => opensFrames_declares trivial) fun present => absurd rfl present
    | @ifElseStmt _ other _ _ _ _ _ branch alternative _ =>
      have quiet : ∀ m, Declares m.heap Heap.noNames (execute setting fuel depth f other m) := by
        intro m
        have inner : Declares m.heap (Heap.namesIn f other.declares) (execute setting fuel depth f other m) :=
          ih alternative
        cases branch with
        | block | ifStmt => exact Heap.namesIn_nil f ▸ inner
      exact Heap.namesIn_nil f ▸ ifStmt_declares (fun m => opensFrames_declares trivial) fun _ => quiet

/-- On every machine and in every frame, evaluating adds no name to any frame that is there, and executing a
statement adds the name that it declares to its own frame, if it declares one and completes, and no other name
anywhere. No frame loses a name or its parent. -/
theorem keeps_scopes (setting : Setting) (fuel depth : Nat) (f : FrameId) (m : Machine) :
    (∀ expr, Declares m.heap Heap.noNames (evaluate setting fuel depth f expr m)) ∧
      ∀ statement, statement.IsStatement Parts.any →
        Declares m.heap (Heap.namesIn f statement.declares) (execute setting fuel depth f statement m) :=
  ⟨evaluate_declares, fun _ => execute_declares⟩

/-- A function that is declared in the frame of the global variables, where its body declares nothing. -/
theorem keeps_scopes_function :
    let declaration : Node := .fnDecl (.str "f") [] [.varDecl (.str "x") .absent none] none
    declaration.IsStatement Parts.any ∧
      Declares (Machine.initial []).heap (Heap.namesIn globalFrame [.text "f"])
        (execute {} 3 0 globalFrame declaration (Machine.initial [])) := by
  intro declaration
  have name (text : String) : Parts.any.IsName (.str text) := ⟨text, rfl, trivial⟩
  have shape : declaration.IsStatement Parts.any :=
    .fnDecl (name "f") (List.forall_mem_nil _) (List.forall_mem_singleton.mpr (.emptyVarDecl (name "x") trivial)) trivial
  exact ⟨shape, (keeps_scopes {} 3 0 globalFrame (Machine.initial [])).2 declaration shape⟩

end Run

end PhyLang
