import PhyLang.Proofs.Interpreter.Outcome
import PhyLang.Proofs.Interpreter.Points

namespace PhyLang

/-- The integers that are asked for lie without gaps around zero. -/
structure Parts.IsInterval (parts : Parts) : Prop where
  zero : parts.int 0
  between : ∀ {first last n : Int}, parts.int first → parts.int last → first ≤ n → n ≤ last → parts.int n

/-- The nodes of a task have the shapes that it asks for, and the values that it is handed are sound. -/
def Task.IsSound (parts : Parts) : Task → Prop
  | .execute _ _ _ node => node.IsStatement parts
  | .initial _ _ _ expr => expr = .absent ∨ expr.IsExpression parts
  | .executeAll _ _ _ nodes => ∀ node ∈ nodes, node.IsStatement parts
  | .executeWhile _ _ _ condition body _ => condition.IsExpression parts ∧ body.IsStatement parts
  | .executeFor _ _ _ name body _ value count =>
    parts.IsName name ∧ body.IsStatement parts ∧ ∀ i < count, parts.int (value + (i : Nat))
  | .evaluate _ _ _ node => node.IsExpression parts
  | .evaluateAll _ _ _ nodes => ∀ node ∈ nodes, node.IsExpression parts
  | .call _ _ callee args => callee.IsSound parts ∧ ∀ arg ∈ args, arg.IsSound parts

/-- The bounds of a loop lie around the integers of its range. -/
theorem Run.rangeOf_ends {parts : Parts} (interval : parts.IsInterval) {start stop : Json}
    (first : parts.IsBound start) (last : stop = .null ∨ parts.IsBound stop) {m : Machine}
    (sound : m.IsSound parts) :
    Ends parts (fun range => ∀ i < range.size, parts.int (range.start + (i : Nat))) (rangeOf start stop m) := by
  obtain ⟨a, rfl, fits⟩ := first
  rcases last with rfl | ⟨b, rfl, fits'⟩
  · refine ⟨fun i below => interval.between interval.zero fits ?_ ?_, sound⟩ <;>
      simp only [IntRange.between, IntRange.size] at below ⊢ <;> omega
  · refine ⟨fun i below => interval.between fits fits' ?_ ?_, sound⟩ <;>
      simp only [IntRange.between, IntRange.size] at below ⊢ <;> omega

namespace Point

/-- A sound task on a sound machine. -/
structure IsSound (parts : Parts) (p : Point) : Prop where
  task : p.task.IsSound parts
  machine : p.machine.IsSound parts

/-- A point ends well: with sound values or an error of the language. -/
def EndsWell (parts : Parts) (setting : Setting) (p : Point) : Prop :=
  Ends parts (fun values => ∀ v ∈ values, v.IsSound parts) (p.task.run setting p.machine)

variable {parts : Parts} {setting : Setting}

/-- The end of the function that a task runs. -/
theorem EndsWell.given {α : Type} {run : Run α} {value : α → Value} {p : Point} (ends : p.EndsWell parts setting)
    (same : p.task.run setting = (fun a => [value a]) <$> run) :
    Ends parts (fun a => (value a).IsSound parts) (run p.machine) := by
  unfold EndsWell at ends
  rw [same] at ends
  have single := Ends.of_map ends
  simpa only [List.mem_singleton, forall_eq] using single

theorem EndsWell.of_given {α : Type} {run : Run α} {value : α → Value} {p : Point}
    (ends : Ends parts (fun a => (value a).IsSound parts) (run p.machine))
    (same : p.task.run setting = (fun a => [value a]) <$> run) : p.EndsWell parts setting := by
  unfold EndsWell
  rw [same]
  refine Ends.map ?_
  simpa only [List.mem_singleton, forall_eq] using ends

/-- A loop that has assigned an integer of 64 bits to its placeholder goes on with a sound machine. -/
theorem counted_sound {f : FrameId} {name : Json} {loc : Option Loc} {value : Int} {m m' m'' : Machine}
    (named : parts.IsName name) (range : Value.InRange value) (machine : m.IsSound parts)
    (assigned : Run.assign f name (.int value) .lostPlaceholder loc m = .ok () m')
    (traced : Run.trace setting (.stepped name.shown value) m' = .ok () m'') : m''.IsSound parts := by
  have good : (Value.int value).IsSound parts := range
  have bound := (Run.assign_ends named f (by simp) loc (fun _ _ => good) machine).ok assigned
  exact ((Run.trace_ends setting _ bound.2).ok traced).2

section Started

variable {fuel depth : Nat} {f : FrameId} {m : Machine} {q : Point}

theorem Starts.sound_execute (interval : parts.IsInterval) {node : Node} (shape : node.IsStatement parts)
    (machine : m.IsSound parts) (start : Starts setting ⟨.execute fuel depth f node, m⟩ q)
    (ends : ∀ {r}, Starts setting ⟨.execute fuel depth f node, m⟩ r → r.IsSound parts → r.EndsWell parts setting) :
    q.IsSound parts := by
  cases start with
  | exprStmt =>
    cases shape with
    | exprStmt inner _ => exact ⟨inner, machine⟩
  | printStmt =>
    cases shape with
    | printStmt inner _ => exact ⟨inner, machine⟩
  | varDecl => exact ⟨shape.declaredValue.2, machine⟩
  | block entered =>
    cases shape with
    | block inner _ => exact ⟨inner, ((Run.newFrame_ends _ machine).ok entered).2⟩
  | ifCondition => exact ⟨shape.ifNodes.1, machine⟩
  | @ifBranch _ _ _ _ _ _ _ _ taken _ _ asked traced present =>
    obtain ⟨condition, branch, alternative⟩ := shape.ifNodes
    -- The branch starts on the machine that the condition leaves.
    have evaluated := ((ends .ifCondition ⟨condition, machine⟩).given rfl).ok asked
    refine ⟨?_, ((Run.trace_ends setting _ evaluated.2).ok traced).2⟩
    cases taken with
    | true => exact branch
    | false => exact alternative.resolve_left present
  | whileStmt =>
    cases shape with
    | whileStmt asked inner _ => exact ⟨⟨asked, inner⟩, machine⟩
  | placeholder entered =>
    cases shape with
    | forStmt placeholder _ _ _ _ => exact ⟨placeholder, ((Run.newFrame_ends _ machine).ok entered).2⟩
  | forStmt entered declared named bounded =>
    cases shape with
    | forStmt placeholder start stop inner _ =>
      have framed := ((Run.newFrame_ends _ machine).ok entered).2
      have executed := ((ends (.placeholder entered) ⟨placeholder, framed⟩).given rfl).ok declared
      have range := (Run.rangeOf_ends interval start stop executed.2).ok bounded
      cases named
      exact ⟨⟨placeholder.declaredValue.1, inner, range.1⟩, range.2⟩
  | returnStmt => exact ⟨shape.returnedValue, machine⟩

theorem Starts.sound_executeWhile {condition body : Node} {loc : Option Loc} (asked : condition.IsExpression parts)
    (inner : body.IsStatement parts) (machine : m.IsSound parts)
    (start : Starts setting ⟨.executeWhile fuel depth f condition body loc, m⟩ q)
    (ends : ∀ {r}, Starts setting ⟨.executeWhile fuel depth f condition body loc, m⟩ r → r.IsSound parts →
      r.EndsWell parts setting) : q.IsSound parts := by
  cases start with
  | whileCondition => exact ⟨asked, machine⟩
  | whileBody holds =>
    have evaluated := ((ends .whileCondition ⟨asked, machine⟩).given rfl).ok holds
    exact ⟨inner, evaluated.2⟩
  | whileAgain holds ran =>
    have evaluated := ((ends .whileCondition ⟨asked, machine⟩).given rfl).ok holds
    have executed := ((ends (.whileBody holds) ⟨inner, evaluated.2⟩).given rfl).ok ran
    exact ⟨⟨asked, inner⟩, executed.2⟩

theorem Starts.sound_executeFor {name : Json} {body : Node} {loc : Option Loc} {value : Int} {count : Nat}
    (named : parts.IsName name) (inner : body.IsStatement parts) (range : ∀ i < count, parts.int (value + (i : Nat)))
    (machine : m.IsSound parts) (start : Starts setting ⟨.executeFor fuel depth f name body loc value count, m⟩ q)
    (introduced : ∀ n, Introduces ⟨.executeFor fuel depth f name body loc value count, m⟩ n → parts.int n →
      Value.InRange n)
    (ends : ∀ {r}, Starts setting ⟨.executeFor fuel depth f name body loc value count, m⟩ r → r.IsSound parts →
      r.EndsWell parts setting) : q.IsSound parts := by
  cases start with
  | forBody assigned traced =>
    have fits := introduced _ (.counter assigned) (by simpa using range 0 (by omega))
    exact ⟨inner, counted_sound named fits machine assigned traced⟩
  | forAgain assigned traced ran =>
    have fits := introduced _ (.counter assigned) (by simpa using range 0 (by omega))
    have noted := counted_sound named fits machine assigned traced
    have executed := ((ends (.forBody assigned traced) ⟨inner, noted⟩).given rfl).ok ran
    -- What is left to count through starts one further.
    refine ⟨⟨named, inner, fun i below => ?_⟩, executed.2⟩
    have next := range (i + 1) (by omega)
    rwa [Nat.cast_add, Nat.cast_one, add_comm (i : Int), ← add_assoc] at next

theorem Starts.sound_evaluate {node : Node} (shape : node.IsExpression parts) (machine : m.IsSound parts)
    (start : Starts setting ⟨.evaluate fuel depth f node, m⟩ q)
    (ends : ∀ {r}, Starts setting ⟨.evaluate fuel depth f node, m⟩ r → r.IsSound parts → r.EndsWell parts setting) :
    q.IsSound parts := by
  cases start with
  | binaryLeft =>
    cases shape with
    | binary _ first _ _ => exact ⟨first, machine⟩
  | binaryRight evaluated =>
    cases shape with
    | binary _ first second _ =>
      have left := ((ends .binaryLeft ⟨first, machine⟩).given rfl).ok evaluated
      exact ⟨second, left.2⟩
  | assign =>
    cases shape with
    | assign _ inner _ => exact ⟨inner, machine⟩
  | grouping =>
    cases shape with
    | grouping inner _ => exact ⟨inner, machine⟩
  | unary =>
    cases shape with
    | unary _ inner _ => exact ⟨inner, machine⟩
  | logicalLeft =>
    cases shape with
    | logical _ first _ _ => exact ⟨first, machine⟩
  | logicalRight evaluated =>
    cases shape with
    | logical _ first second _ =>
      have left := ((ends .logicalLeft ⟨first, machine⟩).given rfl).ok evaluated
      exact ⟨second, left.2⟩
  | callee =>
    cases shape with
    | call called _ _ => exact ⟨called, machine⟩
  | args evaluated =>
    cases shape with
    | call called inner _ =>
      have function := ((ends .callee ⟨called, machine⟩).given rfl).ok evaluated
      exact ⟨inner, function.2⟩
  | call evaluated evaluatedArgs _ _ traced _ =>
    cases shape with
    | call called inner _ =>
      have function := ((ends .callee ⟨called, machine⟩).given rfl).ok evaluated
      have values := Ends.ok (ends (.args evaluated) ⟨inner, function.2⟩) evaluatedArgs
      exact ⟨⟨function.1, values.1⟩, ((Run.trace_ends setting _ values.2).ok traced).2⟩

end Started

/-- A sound point starts sound points only, provided that the points it starts end well. -/
theorem Starts.sound (interval : parts.IsInterval) {p q : Point} (start : p.Starts setting q)
    (sound : p.IsSound parts) (introduced : ∀ n, p.Introduces n → parts.int n → Value.InRange n)
    (ends : ∀ {r}, p.Starts setting r → r.IsSound parts → r.EndsWell parts setting) : q.IsSound parts := by
  obtain ⟨task, m⟩ := p
  obtain ⟨shape, machine⟩ := sound
  cases task with
  | execute => exact start.sound_execute interval shape machine ends
  | initial =>
    cases start with
    | initial present => exact ⟨Or.resolve_left shape present, machine⟩
  | executeAll =>
    cases start with
    | firstNode => exact ⟨shape _ (List.mem_cons_self ..), machine⟩
    | laterNodes ran =>
      have executed := ((ends .firstNode ⟨shape _ (List.mem_cons_self ..), machine⟩).given rfl).ok ran
      exact ⟨fun node member => shape node (List.mem_cons_of_mem _ member), executed.2⟩
  | executeWhile => exact start.sound_executeWhile shape.1 shape.2 machine ends
  | executeFor => exact start.sound_executeFor shape.1 shape.2.1 shape.2.2 machine introduced ends
  | evaluate => exact start.sound_evaluate shape machine ends
  | evaluateAll =>
    cases start with
    | firstArg => exact ⟨shape _ (List.mem_cons_self ..), machine⟩
    | laterArgs evaluated =>
      have first := ((ends .firstArg ⟨shape _ (List.mem_cons_self ..), machine⟩).given rfl).ok evaluated
      exact ⟨fun node member => shape node (List.mem_cons_of_mem _ member), first.2⟩
  | call =>
    cases start with
    | body entered bound =>
      obtain ⟨⟨_, named, inner⟩, good⟩ := shape
      have framed := ((Run.newFrame_ends _ machine).ok entered).2
      exact ⟨inner, ((Run.bindParams_ends _ _ named good framed).ok bound).2⟩

/-- A sound value is a function with an arity and a name, or cannot be called. -/
theorem callee_cases {v : Value} (good : v.IsSound parts) :
    (∃ arity name, v.arity? = some arity ∧ Run.calleeName? v = some name) ∨
      v.arity? = none ∧ Run.calleeName? v = none ∧ v.isCallable = false := by
  cases v with
  | fn closure => exact Or.inl ⟨_, _, rfl, rfl⟩
  | native function => exact Or.inl ⟨_, _, rfl, rfl⟩
  | callable => exact good.elim
  | _ => exact Or.inr ⟨rfl, rfl, rfl⟩

section Steps

variable {fuel depth : Nat} {f : FrameId} {m : Machine}

theorem logicalNode_ends {operator : Json} {left right : Node} {loc : Option Loc}
    (ends : ∀ {q}, Starts setting ⟨.evaluate (fuel + 1) depth f (.logical operator left right loc), m⟩ q →
      q.EndsWell parts setting) :
    Ends parts (Value.IsSound parts) (Run.evaluate setting (fuel + 1) depth f (.logical operator left right loc) m) := by
  unfold Run.evaluate
  refine ((ends .logicalLeft).given rfl).bind fun a m' evaluated good sound => ?_
  cases a with
  | bool a =>
    dsimp only
    split
    next => exact Ends.pure trivial sound
    next undecided => exact (ends (.logicalRight evaluated (by simpa using undecided))).given rfl
  | _ => exact Run.fail_ends (by simp) _ sound

theorem binaryNode_ends {operator : String} {left right : Node} {loc : Option Loc}
    (ends : ∀ {q}, Starts setting ⟨.evaluate (fuel + 1) depth f (.binary (.str operator) left right loc), m⟩ q →
      q.EndsWell parts setting) :
    Ends parts (Value.IsSound parts)
      (Run.evaluate setting (fuel + 1) depth f (.binary (.str operator) left right loc) m) := by
  unfold Run.evaluate
  refine ((ends .binaryLeft).given rfl).bind fun a m' evaluated first sound => ?_
  split
  next => exact Run.fail_ends (by simp) _ sound
  next present =>
    refine ((ends (.binaryRight evaluated (by simpa using present))).given rfl).bind fun b m'' _ second sound' => ?_
    split
    next => exact Run.fail_ends (by simp) _ sound'
    next => exact Run.binary_ends operator first second loc sound'

theorem callNode_ends {callee : Node} {args : List Node} {loc : Option Loc}
    (ends : ∀ {q}, Starts setting ⟨.evaluate (fuel + 1) depth f (.call callee args loc), m⟩ q →
      q.EndsWell parts setting) :
    Ends parts (Value.IsSound parts) (Run.evaluate setting (fuel + 1) depth f (.call callee args loc) m) := by
  unfold Run.evaluate
  refine ((ends .callee).given rfl).bind fun function m' evaluated good sound => ?_
  refine Ends.bind (ends (.args evaluated)) fun values m'' evaluatedArgs goods sound' => ?_
  rcases callee_cases good with ⟨arity, name, accepts, named⟩ | ⟨accepts, named, uncallable⟩
  · rw [accepts, named]
    dsimp only
    split
    next => exact Run.fail_ends (by simp) loc sound'
    next same =>
      have accepted : function.arity? = some (values.length : Int) := by
        rw [accepts, not_not.mp same]
      refine (Run.trace_ends setting _ sound').bind fun _ m''' traced _ sound'' => ?_
      split
      next => exact Run.fail_ends (by simp) loc sound''
      next allowed =>
        have called := ends (.call evaluated evaluatedArgs accepted named traced (Nat.not_le.mp allowed))
        exact Run.wrapped_ends name loc (called.given rfl)
  · rw [accepts, named, uncallable]
    exact Run.fail_ends (by simp) loc sound'

theorem evaluate_ends {node : Node} (shape : node.IsExpression parts) (machine : m.IsSound parts)
    (introduced : ∀ n, Introduces ⟨.evaluate (fuel + 1) depth f node, m⟩ n → parts.int n → Value.InRange n)
    (ends : ∀ {q}, Starts setting ⟨.evaluate (fuel + 1) depth f node, m⟩ q → q.EndsWell parts setting) :
    Ends parts (Value.IsSound parts) (Run.evaluate setting (fuel + 1) depth f node m) := by
  cases shape with
  | assign named _ _ =>
    unfold Run.evaluate
    refine ((ends .assign).given rfl).bind fun v m' _ good sound => ?_
    refine (Run.assign_ends named f (by simp) _ (fun _ _ => good) sound).bind fun _ m'' _ _ sound' => ?_
    exact Ends.pure trivial sound'
  | logical _ _ _ _ => exact logicalNode_ends ends
  | binary _ _ _ _ => exact binaryNode_ends ends
  | unary _ _ _ =>
    unfold Run.evaluate
    exact ((ends .unary).given rfl).bind fun v m' _ good sound => Run.unary_ends _ good _ sound
  | call _ _ _ => exact callNode_ends ends
  | grouping _ _ => exact (ends .grouping).given rfl
  | intLiteral allowed _ => exact Ends.pure (introduced _ .literal allowed) machine
  | realLiteral _ => exact Ends.pure trivial machine
  | strLiteral _ => exact Ends.pure trivial machine
  | identifier named _ => exact Run.lookup_ends named f _ machine

theorem varDecl_ends {name : Json} {value : Node} {loc : Option Loc} (named : parts.IsName name)
    (ends : ∀ {q}, Starts setting ⟨.execute (fuel + 1) depth f (.varDecl name value loc), m⟩ q →
      q.EndsWell parts setting) :
    Ends parts (fun c => c.given.IsSound parts)
      (Run.execute setting (fuel + 1) depth f (.varDecl name value loc) m) := by
  unfold Run.execute
  refine ((ends .varDecl).given rfl).bind fun v m' _ good sound => ?_
  refine (Run.declare_ends named f loc good sound).bind fun _ m'' _ _ sound' => ?_
  exact (Run.trace_ends setting _ sound').bind fun _ m''' _ _ sound'' => Ends.pure trivial sound''

theorem branch_ends (branch : Node) (machine : m.IsSound parts) :
    (branch ≠ .absent → Ends parts (fun c => c.given.IsSound parts) (Run.execute setting fuel depth f branch m)) →
    Ends parts (fun c => c.given.IsSound parts) ((match branch with
      | .absent => pure (.value .null)
      | branch => Run.execute setting fuel depth f branch : Run Completion) m) := by
  intro ends
  cases branch with
  | absent => exact Ends.pure trivial machine
  | _ => exact ends (by simp)

theorem ifStmt_ends {condition thenBranch elseBranch : Node} {loc : Option Loc}
    (ends : ∀ {q}, Starts setting ⟨.execute (fuel + 1) depth f (.ifStmt condition thenBranch elseBranch loc), m⟩ q →
      q.EndsWell parts setting) :
    Ends parts (fun c => c.given.IsSound parts)
      (Run.execute setting (fuel + 1) depth f (.ifStmt condition thenBranch elseBranch loc) m) := by
  unfold Run.execute
  refine ((ends .ifCondition).given rfl).bind fun v m' asked good sound => ?_
  cases v with
  | bool taken =>
    refine (Run.trace_ends setting _ sound).bind fun _ m'' traced _ sound' => ?_
    cases taken with
    | true => exact branch_ends _ sound' fun present => (ends (.ifBranch asked traced present)).given rfl
    | false => exact branch_ends _ sound' fun present => (ends (.ifBranch asked traced present)).given rfl
  | _ => exact Run.fail_ends (by simp) loc sound

theorem forStmt_ends (interval : parts.IsInterval) {name start stop : Json} {body : Node} {nameLoc loc : Option Loc}
    (first : parts.IsBound start) (last : stop = .null ∨ parts.IsBound stop) (machine : m.IsSound parts)
    (ends : ∀ {q}, Starts setting
      ⟨.execute (fuel + 1) depth f (.forStmt (.varDecl name .absent nameLoc) start stop body loc), m⟩ q →
      q.EndsWell parts setting) :
    Ends parts (fun c => c.given.IsSound parts)
      (Run.execute setting (fuel + 1) depth f (.forStmt (.varDecl name .absent nameLoc) start stop body loc) m) := by
  unfold Run.execute
  refine (Run.newFrame_ends f machine).bind fun inner m' entered _ _ => ?_
  refine ((ends (.placeholder entered)).given rfl).bind fun c m'' declared _ sound => ?_
  refine (Run.rangeOf_ends interval first last sound).bind fun range m''' bounded _ _ => ?_
  exact (ends (.forStmt entered declared rfl bounded)).given rfl

theorem execute_ends (interval : parts.IsInterval) {node : Node} (shape : node.IsStatement parts)
    (machine : m.IsSound parts)
    (ends : ∀ {q}, Starts setting ⟨.execute (fuel + 1) depth f node, m⟩ q → q.EndsWell parts setting) :
    Ends parts (fun c => c.given.IsSound parts) (Run.execute setting (fuel + 1) depth f node m) := by
  cases shape with
  | exprStmt _ _ =>
    unfold Run.execute
    refine ((ends .exprStmt).given rfl).bind fun v m' _ good sound => ?_
    cases v with
    | signal => exact good.elim
    | _ => exact Ends.pure good sound
  | printStmt _ _ =>
    unfold Run.execute
    exact ((ends .printStmt).given rfl).bind fun v m' _ good sound => Ends.pure trivial sound
  | varDecl named _ _ => exact varDecl_ends named ends
  | emptyVarDecl named _ => exact varDecl_ends named ends
  | block _ _ =>
    unfold Run.execute
    exact (Run.newFrame_ends f machine).bind fun inner m' entered _ _ => (ends (.block entered)).given rfl
  | ifStmt _ _ _ => exact ifStmt_ends ends
  | ifElseStmt _ _ _ _ _ => exact ifStmt_ends ends
  | whileStmt _ _ _ => exact (ends .whileStmt).given rfl
  | forStmt _ start stop _ _ => exact forStmt_ends interval start stop machine ends
  | @fnDecl name params body loc named namedParams inner _ =>
    unfold Run.execute
    have good : (Value.fn ⟨name, params, body, f, loc⟩).IsSound parts := ⟨named, namedParams, inner⟩
    refine (Run.declare_ends named f loc good machine).bind fun _ m' _ _ sound => ?_
    exact (Run.trace_ends setting _ sound).bind fun _ m'' _ _ sound' => Ends.pure trivial sound'
  | returnStmt _ _ =>
    unfold Run.execute
    exact ((ends .returnStmt).given rfl).bind fun v m' _ good sound => Ends.pure good sound
  | emptyReturnStmt _ =>
    unfold Run.execute
    exact ((ends .returnStmt).given rfl).bind fun v m' _ good sound => Ends.pure good sound

theorem initial_ends {expr : Node} (machine : m.IsSound parts)
    (ends : ∀ {q}, Starts setting ⟨.initial (fuel + 1) depth f expr, m⟩ q → q.EndsWell parts setting) :
    Ends parts (Value.IsSound parts) (Run.initial setting (fuel + 1) depth f expr m) := by
  cases expr with
  | absent => exact Ends.pure trivial machine
  | _ => exact (ends (.initial (by simp))).given rfl

theorem executeAll_ends {nodes : List Node} (machine : m.IsSound parts)
    (ends : ∀ {q}, Starts setting ⟨.executeAll (fuel + 1) depth f nodes, m⟩ q → q.EndsWell parts setting) :
    Ends parts (fun c => c.given.IsSound parts) (Run.executeAll setting (fuel + 1) depth f nodes m) := by
  cases nodes with
  | nil => exact Ends.pure trivial machine
  | cons node rest =>
    unfold Run.executeAll
    refine ((ends .firstNode).given rfl).bind fun c m' ran good sound => ?_
    cases c with
    | returned v => exact Ends.pure good sound
    | value v => exact (ends (.laterNodes ran)).given rfl

theorem executeWhile_ends {condition body : Node} {loc : Option Loc}
    (ends : ∀ {q}, Starts setting ⟨.executeWhile (fuel + 1) depth f condition body loc, m⟩ q →
      q.EndsWell parts setting) :
    Ends parts (fun c => c.given.IsSound parts)
      (Run.executeWhile setting (fuel + 1) depth f condition body loc m) := by
  unfold Run.executeWhile
  refine ((ends .whileCondition).given rfl).bind fun v m' asked good sound => ?_
  cases v with
  | bool taken =>
    cases taken with
    | false => exact Ends.pure trivial sound
    | true =>
      refine ((ends (.whileBody asked)).given rfl).bind fun c m'' ran given sound' => ?_
      cases c with
      | returned v => exact Ends.pure given sound'
      | value v => exact (ends (.whileAgain asked ran)).given rfl
  | _ => exact Run.fail_ends (by simp) loc sound

theorem executeFor_ends {name : Json} {body : Node} {loc : Option Loc} {value : Int} {count : Nat}
    (named : parts.IsName name) (range : ∀ i < count, parts.int (value + (i : Nat))) (machine : m.IsSound parts)
    (introduced : ∀ n, Introduces ⟨.executeFor (fuel + 1) depth f name body loc value count, m⟩ n → parts.int n →
      Value.InRange n)
    (ends : ∀ {q}, Starts setting ⟨.executeFor (fuel + 1) depth f name body loc value count, m⟩ q →
      q.EndsWell parts setting) :
    Ends parts (fun c => c.given.IsSound parts)
      (Run.executeFor setting (fuel + 1) depth f name body loc value count m) := by
  cases count with
  | zero => exact Ends.pure trivial machine
  | succ count =>
    have fits (m' : Machine) (assigned : Run.assign f name (.int value) .lostPlaceholder loc m = .ok () m') :
        (Value.int value).IsSound parts :=
      introduced _ (.counter assigned) (by simpa using range 0 (by omega))
    unfold Run.executeFor
    refine (Run.assign_ends named f (by simp) loc fits machine).bind fun _ m' assigned _ sound => ?_
    refine (Run.trace_ends setting _ sound).bind fun _ m'' traced _ _ => ?_
    refine ((ends (.forBody assigned traced)).given rfl).bind fun c m''' ran given sound' => ?_
    cases c with
    | returned v => exact Ends.pure given sound'
    | value v => exact (ends (.forAgain assigned traced ran)).given rfl

theorem evaluateAll_ends {nodes : List Node} (machine : m.IsSound parts)
    (ends : ∀ {q}, Starts setting ⟨.evaluateAll (fuel + 1) depth f nodes, m⟩ q → q.EndsWell parts setting) :
    Ends parts (fun values => ∀ v ∈ values, v.IsSound parts) (Run.evaluateAll setting (fuel + 1) depth f nodes m) := by
  cases nodes with
  | nil => exact Ends.pure (by simp) machine
  | cons node rest =>
    unfold Run.evaluateAll
    refine ((ends .firstArg).given rfl).bind fun v m' evaluated good sound => ?_
    refine Ends.bind (ends (.laterArgs evaluated)) fun values m'' _ goods sound' => ?_
    exact Ends.pure (List.forall_mem_cons.mpr ⟨good, goods⟩) sound'

theorem call_ends {callee : Value} {args : List Value} (good : callee.IsSound parts)
    (goods : ∀ arg ∈ args, arg.IsSound parts) (machine : m.IsSound parts)
    (ends : ∀ {q}, Starts setting ⟨.call (fuel + 1) depth callee args, m⟩ q → q.EndsWell parts setting) :
    Ends parts (Value.IsSound parts) (Run.call setting (fuel + 1) depth callee args m) := by
  cases callee with
  | fn closure =>
    unfold Run.call
    refine (Run.newFrame_ends closure.frame machine).bind fun inner m' entered _ sound => ?_
    refine (Run.bindParams_ends inner closure.loc good.2.1 goods sound).bind fun _ m'' bound _ _ => ?_
    refine ((ends (.body entered bound)).given rfl).bind fun c m''' _ given sound' => ?_
    cases c with
    | returned v => exact Ends.pure given sound'
    | value v => exact Ends.pure trivial sound'
  | native function =>
    cases good
    exact ⟨trivial, machine⟩
  | callable => exact good.elim
  | signal => exact good.elim
  | foreign => exact good.elim
  | _ => exact Run.fail_ends (by simp) none machine

end Steps

/-- A sound point ends well, provided that the points it starts do. -/
theorem EndsWell.of_starts (interval : parts.IsInterval) {p : Point} (sound : p.IsSound parts)
    (introduced : ∀ n, p.Introduces n → parts.int n → Value.InRange n)
    (ends : ∀ {q}, p.Starts setting q → q.EndsWell parts setting) : p.EndsWell parts setting := by
  obtain ⟨task, m⟩ := p
  obtain ⟨shape, machine⟩ := sound
  by_cases spent : task.fuel = 0
  · -- A task without fuel stops at once and leaves the machine as it is.
    cases task <;> cases spent <;> exact machine
  · obtain ⟨fuel, left⟩ := Nat.exists_eq_succ_of_ne_zero spent
    cases task with
    | execute =>
      cases left
      exact .of_given (execute_ends interval shape machine ends) rfl
    | initial =>
      cases left
      exact .of_given (initial_ends machine ends) rfl
    | executeAll =>
      cases left
      exact .of_given (executeAll_ends machine ends) rfl
    | executeWhile =>
      cases left
      exact .of_given (executeWhile_ends ends) rfl
    | executeFor =>
      cases left
      exact .of_given (executeFor_ends shape.1 shape.2.2 machine introduced ends) rfl
    | evaluate =>
      cases left
      exact .of_given (evaluate_ends shape machine introduced ends) rfl
    | evaluateAll =>
      cases left
      exact evaluateAll_ends machine ends
    | call =>
      cases left
      exact .of_given (call_ends shape.1 shape.2 machine ends) rfl

/-- The integers of 64 bits are all that the run from a point introduces, of those that may be asked for. -/
def IntroducesInRange (parts : Parts) (setting : Setting) (p : Point) : Prop :=
  ∀ q, Relation.ReflTransGen (Starts setting) p q → ∀ n, q.Introduces n → parts.int n → Value.InRange n

theorem IntroducesInRange.start {p q : Point} (fine : p.IntroducesInRange parts setting) (start : p.Starts setting q) :
    q.IntroducesInRange parts setting :=
  fun r reached => fine r (.head start reached)

theorem Starts.fuel_lt {p q : Point} (start : p.Starts setting q) : q.task.fuel < p.task.fuel := by
  cases start <;> exact Nat.lt_succ_self _

/-- A sound point ends well. -/
theorem endsWell (interval : parts.IsInterval) {p : Point} (sound : p.IsSound parts)
    (fine : p.IntroducesInRange parts setting) : p.EndsWell parts setting := by
  -- What a point starts has less fuel. That it is sound rests on the ends of what was started before it.
  induction fuel : p.task.fuel using Nat.strong_induction_on generalizing p with
  | _ fuel ih =>
    have ends : ∀ {q}, p.Starts setting q → q.IsSound parts → q.EndsWell parts setting :=
      fun start sound => ih _ (by rw [← fuel]; exact start.fuel_lt) sound (fine.start start) rfl
    have introduced := fine p .refl
    exact .of_starts interval sound introduced fun start => ends start (start.sound interval sound introduced ends)

end Point
variable {parts : Parts} {setting : Setting} {fuel : Nat} {program : Program} {m : Machine}

/-- A machine on which nothing has run yet is sound. -/
theorem Machine.initial_sound {clock : Clock} : (Machine.initial [] clock).IsSound parts :=
  Machine.initial_holds clock rfl

namespace Program

theorem Reaches.trans {p q : Point} (reached : program.Reaches setting fuel m p)
    (further : Relation.ReflTransGen (Point.Starts setting) p q) : program.Reaches setting fuel m q := by
  induction further with
  | refl => exact reached
  | tail _ start ih => exact .inner ih start

/-- The integers of 64 bits are all that a run introduces, of those that may be asked for. -/
def IntroducesInRange (parts : Parts) (setting : Setting) (fuel : Nat) (program : Program) (m : Machine) : Prop :=
  ∀ p, program.Reaches setting fuel m p → ∀ n, p.Introduces n → parts.int n → Value.InRange n

theorem IntroducesInRange.point (fine : program.IntroducesInRange parts setting fuel m) {p : Point}
    (reached : program.Reaches setting fuel m p) : p.IntroducesInRange parts setting :=
  fun q further => fine q (reached.trans further)

theorem IntroducesInRange.tail {node : Node} {v : Value} {m' : Machine}
    (fine : IntroducesInRange parts setting fuel (node :: program) m)
    (ran : Run.execute setting fuel 0 globalFrame node m = .ok (.value v) m') :
    program.IntroducesInRange parts setting fuel m' :=
  fun p reached => fine p (.later ran reached)

/-- The end of the first statement of a program. -/
theorem statement_ends (interval : parts.IsInterval) {node : Node} (shape : node.IsStatement parts)
    (machine : m.IsSound parts) (fine : IntroducesInRange parts setting fuel (node :: program) m) :
    Ends parts (fun c => c.given.IsSound parts) (Run.execute setting fuel 0 globalFrame node m) := by
  have sound : Point.IsSound parts ⟨.execute fuel 0 globalFrame node, m⟩ := ⟨shape, machine⟩
  exact (Point.endsWell interval sound (fine.point .statement)).given rfl

/-- Every point of the run of a program is sound. -/
theorem Reaches.sound (interval : parts.IsInterval) {p : Point} (reached : program.Reaches setting fuel m p)
    (shape : ∀ node ∈ program, node.IsStatement parts) (machine : m.IsSound parts)
    (fine : program.IntroducesInRange parts setting fuel m) : p.IsSound parts := by
  induction reached with
  | statement => exact ⟨shape _ (List.mem_cons_self ..), machine⟩
  | later ran _ ih =>
    -- The other statements run on the machine that the first one leaves.
    have first := (statement_ends interval (shape _ (List.mem_cons_self ..)) machine fine).ok ran
    exact ih (fun node member => shape node (List.mem_cons_of_mem _ member)) first.2 (fine.tail ran)
  | inner reached start ih =>
    have sound := ih shape machine fine
    exact start.sound interval sound (fine _ reached) fun started good =>
      Point.endsWell interval good (fine.point (.inner reached started))

end Program

/-- The run of a program ends with a sound value or with an error of the language. -/
theorem Run.interpretFrom_ends (interval : parts.IsInterval) (shape : ∀ node ∈ program, node.IsStatement parts)
    (machine : m.IsSound parts) (fine : program.IntroducesInRange parts setting fuel m) {result : Value}
    (good : result.IsSound parts) : Ends parts (Value.IsSound parts) (interpretFrom setting fuel result program m) := by
  induction program generalizing m result with
  | nil => exact Ends.pure good machine
  | cons node rest ih =>
    have first := Program.statement_ends interval (shape node (List.mem_cons_self ..)) machine fine
    refine first.bind fun c m' ran given sound => ?_
    cases c with
    | returned v => exact fail_ends (by simp) none sound
    | value v => exact ih (fun other member => shape other (List.mem_cons_of_mem _ member)) sound (fine.tail ran) given

end PhyLang
