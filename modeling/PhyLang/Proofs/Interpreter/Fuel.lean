import PhyLang.Proofs.Interpreter.Agreement

namespace PhyLang.Run

variable {α β : Type} {m : Machine}

/-- The second of two ends is that of a run with more fuel: the same as the first, unless that one lacked fuel. -/
def Continues (less more : EStateM.Result Stop Machine α) : Prop := (∃ m, less = .error .exhausted m) ∨ more = less

theorem Continues.refl (result : EStateM.Result Stop Machine α) : Continues result result := Or.inr rfl

theorem Continues.bind {run run' : Run α} {next next' : α → Run β} (first : Continues (run m) (run' m))
    (second : ∀ a m', Continues (next a m') (next' a m')) : Continues ((run >>= next) m) ((run' >>= next') m) := by
  rcases first with ⟨m', exhausted⟩ | same
  · exact Or.inl ⟨m', bind_error exhausted⟩
  · cases ran : run m with
    | ok a m' =>
      rw [bind_ok ran, bind_ok (same.trans ran)]
      exact second a m'
    | error stop m' =>
      rw [bind_error ran, bind_error (same.trans ran)]
      exact .refl _

theorem Continues.wrapped {run run' : Run α} (name : String) (loc : Option Loc)
    (continues : Continues (run m) (run' m)) : Continues (wrapped name loc run m) (wrapped name loc run' m) := by
  unfold Run.wrapped
  rcases continues with ⟨m', exhausted⟩ | same
  · exact Or.inl ⟨m', by rw [exhausted]⟩
  · rw [same]
    exact .refl _

/-- All runs with one amount of fuel continue those with another one. -/
structure Continued (setting : Setting) (less more : Nat) : Prop where
  execute (depth : Nat) (f : FrameId) (node : Node) (m : Machine) :
    Continues (execute setting less depth f node m) (execute setting more depth f node m)
  initial (depth : Nat) (f : FrameId) (expr : Node) (m : Machine) :
    Continues (initial setting less depth f expr m) (initial setting more depth f expr m)
  executeAll (depth : Nat) (f : FrameId) (nodes : List Node) (m : Machine) :
    Continues (executeAll setting less depth f nodes m) (executeAll setting more depth f nodes m)
  executeWhile (depth : Nat) (f : FrameId) (condition body : Node) (loc : Option Loc) (m : Machine) :
    Continues (executeWhile setting less depth f condition body loc m)
      (executeWhile setting more depth f condition body loc m)
  executeFor (depth : Nat) (f : FrameId) (name : Json) (body : Node) (loc : Option Loc) (value : Int) (count : Nat)
    (m : Machine) : Continues (executeFor setting less depth f name body loc value count m)
      (executeFor setting more depth f name body loc value count m)
  evaluate (depth : Nat) (f : FrameId) (node : Node) (m : Machine) :
    Continues (evaluate setting less depth f node m) (evaluate setting more depth f node m)
  evaluateAll (depth : Nat) (f : FrameId) (nodes : List Node) (m : Machine) :
    Continues (evaluateAll setting less depth f nodes m) (evaluateAll setting more depth f nodes m)
  call (depth : Nat) (callee : Value) (args : List Value) (m : Machine) :
    Continues (call setting less depth callee args m) (call setting more depth callee args m)

section Steps

variable {setting : Setting} {less more depth : Nat} {f : FrameId} (continued : Continued setting less more)
include continued

theorem execute_continues (node : Node) :
    Continues (execute setting (less + 1) depth f node m) (execute setting (more + 1) depth f node m) := by
  cases node with
  | exprStmt expr => exact (continued.evaluate depth f expr m).bind fun _ _ => .refl _
  | printStmt expr => exact (continued.evaluate depth f expr m).bind fun _ _ => .refl _
  | varDecl name value => exact (continued.initial depth f value m).bind fun _ _ => .refl _
  | block nodes =>
    exact (Continues.refl (newFrame f m)).bind fun inner m' => continued.executeAll depth inner nodes m'
  | ifStmt condition thenBranch elseBranch loc =>
    refine Continues.bind (continued.evaluate depth f condition m) fun v m' => ?_
    cases v with
    | bool taken =>
      refine (Continues.refl (trace setting (.branched taken) m')).bind fun _ m'' => ?_
      generalize (if taken = true then thenBranch else elseBranch) = branch
      cases branch with
      | absent => exact .refl _
      | _ => exact continued.execute depth f _ m''
    | _ => exact .refl _
  | whileStmt condition body loc => exact continued.executeWhile depth f condition body loc m
  | forStmt placeholder start stop body loc =>
    refine (Continues.refl (newFrame f m)).bind fun inner m' => ?_
    refine (continued.execute depth inner placeholder m').bind fun c m'' => ?_
    cases placeholder.declaredName? with
    | none => exact .refl _
    | some name =>
      refine (Continues.refl (rangeOf start stop m'')).bind fun range m''' => ?_
      exact continued.executeFor depth inner name body loc range.start range.size m'''
  | fnDecl => exact .refl _
  | returnStmt value => exact (continued.initial depth f value m).bind fun _ _ => .refl _
  | _ => exact .refl _

theorem initial_continues (expr : Node) :
    Continues (initial setting (less + 1) depth f expr m) (initial setting (more + 1) depth f expr m) := by
  cases expr with
  | absent => exact .refl _
  | _ => exact continued.evaluate depth f _ m

theorem executeAll_continues (nodes : List Node) :
    Continues (executeAll setting (less + 1) depth f nodes m) (executeAll setting (more + 1) depth f nodes m) := by
  cases nodes with
  | nil => exact .refl _
  | cons node rest =>
    refine (continued.execute depth f node m).bind fun c m' => ?_
    cases c with
    | returned v => exact .refl _
    | value v => exact continued.executeAll depth f rest m'

theorem executeWhile_continues (condition body : Node) (loc : Option Loc) :
    Continues (executeWhile setting (less + 1) depth f condition body loc m)
      (executeWhile setting (more + 1) depth f condition body loc m) := by
  refine (continued.evaluate depth f condition m).bind fun v m' => ?_
  cases v with
  | bool taken =>
    cases taken with
    | false => exact .refl _
    | true =>
      refine (continued.execute depth f body m').bind fun c m'' => ?_
      cases c with
      | returned v => exact .refl _
      | value v => exact continued.executeWhile depth f condition body loc m''
  | _ => exact .refl _

theorem executeFor_continues (name : Json) (body : Node) (loc : Option Loc) (value : Int) (count : Nat) :
    Continues (executeFor setting (less + 1) depth f name body loc value count m)
      (executeFor setting (more + 1) depth f name body loc value count m) := by
  cases count with
  | zero => exact .refl _
  | succ count =>
    refine (Continues.refl (assign f name (.int value) .lostPlaceholder loc m)).bind fun _ m' => ?_
    refine (Continues.refl (trace setting (.stepped name.shown value) m')).bind fun _ m'' => ?_
    refine (continued.execute depth f body m'').bind fun c m''' => ?_
    cases c with
    | returned v => exact .refl _
    | value v => exact continued.executeFor depth f name body loc (value + 1) count m'''

theorem callNode_continues (callee : Node) (args : List Node) (loc : Option Loc) :
    Continues (evaluate setting (less + 1) depth f (.call callee args loc) m)
      (evaluate setting (more + 1) depth f (.call callee args loc) m) := by
  refine (continued.evaluate depth f callee m).bind fun function m' => ?_
  refine (continued.evaluateAll depth f args m').bind fun values m'' => ?_
  cases function.arity? with
  | none => exact .refl _
  | some expected =>
    cases calleeName? function with
    | none => exact .refl _
    | some name =>
      dsimp only
      split
      next => exact .refl _
      next =>
        refine (Continues.refl (trace setting _ m'')).bind fun _ m''' => ?_
        split
        next => exact .refl _
        next => exact (continued.call (depth + 1) function values m''').wrapped name loc

theorem evaluate_continues (node : Node) :
    Continues (evaluate setting (less + 1) depth f node m) (evaluate setting (more + 1) depth f node m) := by
  cases node with
  | call callee args loc => exact callNode_continues continued callee args loc
  | binary operator left right loc =>
    refine (continued.evaluate depth f left m).bind fun a m' => ?_
    split
    next => exact .refl _
    next => exact (continued.evaluate depth f right m').bind fun _ _ => .refl _
  | assign name value => exact (continued.evaluate depth f value m).bind fun _ _ => .refl _
  | grouping expr => exact continued.evaluate depth f expr m
  | unary operator right => exact (continued.evaluate depth f right m).bind fun _ _ => .refl _
  | logical operator left right =>
    refine (continued.evaluate depth f left m).bind fun a m' => ?_
    cases a with
    | bool a =>
      dsimp only
      split
      next => exact .refl _
      next => exact continued.evaluate depth f right m'
    | _ => exact .refl _
  | _ => exact .refl _

theorem evaluateAll_continues (nodes : List Node) :
    Continues (evaluateAll setting (less + 1) depth f nodes m) (evaluateAll setting (more + 1) depth f nodes m) := by
  cases nodes with
  | nil => exact .refl _
  | cons node rest =>
    refine (continued.evaluate depth f node m).bind fun v m' => ?_
    exact (continued.evaluateAll depth f rest m').bind fun _ _ => .refl _

theorem call_continues (callee : Value) (args : List Value) :
    Continues (call setting (less + 1) depth callee args m) (call setting (more + 1) depth callee args m) := by
  cases callee with
  | fn closure =>
    refine (Continues.refl (newFrame closure.frame m)).bind fun inner m' => ?_
    refine (Continues.refl (bindParams inner closure.loc closure.params args m')).bind fun _ m'' => ?_
    exact (continued.executeAll depth inner closure.body m'').bind fun _ _ => .refl _
  | _ => exact .refl _

end Steps

/-- A run goes on with more fuel where it stopped for want of fuel, and else ends as before. -/
theorem continued (setting : Setting) {less more : Nat} (le : less ≤ more) : Continued setting less more := by
  induction less generalizing more with
  | zero =>
    constructor
    all_goals
      intros
      exact Or.inl ⟨_, rfl⟩
  | succ less ih =>
    obtain ⟨more, rfl⟩ := Nat.exists_eq_add_of_le' (Nat.pos_of_ne_zero (by omega : more ≠ 0))
    have continued := ih (Nat.le_of_succ_le_succ le)
    exact {
      execute := fun _ _ node _ => execute_continues continued node
      initial := fun _ _ expr _ => initial_continues continued expr
      executeAll := fun _ _ nodes _ => executeAll_continues continued nodes
      executeWhile := fun _ _ condition body loc _ => executeWhile_continues continued condition body loc
      executeFor := fun _ _ name body loc value count _ => executeFor_continues continued name body loc value count
      evaluate := fun _ _ node _ => evaluate_continues continued node
      evaluateAll := fun _ _ nodes _ => evaluateAll_continues continued nodes
      call := fun _ callee args _ => call_continues continued callee args }

/-- A run comes to an end with some amount of fuel. -/
def Settles (run : Nat → EStateM.Result Stop Machine α) (result : EStateM.Result Stop Machine α) : Prop :=
  (∃ fuel, run fuel = result) ∧ ∀ m, result ≠ .error .exhausted m

/-- More fuel makes no difference to the ends of a run. -/
def IsSteady (run : Nat → EStateM.Result Stop Machine α) : Prop :=
  ∀ less more, less ≤ more → Continues (run less) (run more)

theorem execute_isSteady (setting : Setting) (depth : Nat) (f : FrameId) (node : Node) (m : Machine) :
    IsSteady fun fuel => execute setting fuel depth f node m :=
  fun _ _ le => (continued setting le).execute depth f node m

theorem Settles.eventually {run : Nat → EStateM.Result Stop Machine α} {result : EStateM.Result Stop Machine α}
    (steady : IsSteady run) (settles : Settles run result) : ∃ fuel, ∀ more, fuel ≤ more → run more = result := by
  obtain ⟨⟨fuel, ran⟩, ended⟩ := settles
  refine ⟨fuel, fun more le => ?_⟩
  rcases steady fuel more le with ⟨m, exhausted⟩ | same
  · exact absurd (ran.symm.trans exhausted) (ended m)
  · exact same.trans ran

/-- A run comes to one end at most. -/
theorem Settles.unique {run : Nat → EStateM.Result Stop Machine α} {result other : EStateM.Result Stop Machine α}
    (steady : IsSteady run) (first : Settles run result) (second : Settles run other) : other = result := by
  obtain ⟨fuel, ran⟩ := first.eventually steady
  obtain ⟨fuel', ran'⟩ := second.eventually steady
  exact (ran' _ (Nat.le_max_right fuel fuel')).symm.trans (ran _ (Nat.le_max_left fuel fuel'))

end PhyLang.Run
