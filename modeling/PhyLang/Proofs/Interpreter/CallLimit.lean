import PhyLang.Proofs.Interpreter.Agreement
import PhyLang.Proofs.Interpreter.CallStack
import PhyLang.Proofs.Scope.Growth

namespace PhyLang

namespace Run

theorem wrapped_error {α : Type} {run : Run α} {m m' : Machine} {e : RuntimeError} (name : String) (loc : Option Loc)
    (failed : run m = .error (.error e) m') : wrapped name loc run m = .error (.error (.inCall name e loc)) m' := by
  unfold wrapped
  rw [failed]

end Run

namespace Point

open Run (bind_ok bind_error wrapped_error)

variable {setting : Setting}

/-- The task of a point fails. -/
def Fails (setting : Setting) (p : Point) (e : RuntimeError) (m : Machine) : Prop :=
  p.task.answer setting p.machine = .error (.error e) m

/-- A call whose function and arguments are there, up to the limit. -/
theorem callNode_answer {fuel depth : Nat} {f : FrameId} {callee : Node} {args : List Node} {loc : Option Loc}
    {function : Value} {values : List Value} {name : String} {m m' m'' m''' : Machine}
    (first : Run.evaluate setting fuel depth f callee m = .ok function m')
    (second : Run.evaluateAll setting fuel depth f args m' = .ok values m'')
    (accepted : function.arity? = some (values.length : Int)) (named : Run.calleeName? function = some name)
    (traced : Run.trace setting (.called name (values.map Value.text)) m'' = .ok () m''') :
    Run.evaluate setting (fuel + 1) depth f (.call callee args loc) m =
      (if setting.callLimit ≤ depth then Run.fail (.tooDeep name) loc
        else Run.wrapped name loc (Run.call setting fuel (depth + 1) function values)) m''' := by
  refine (bind_ok first).trans ((bind_ok second).trans ?_)
  simp only [accepted, named, ne_eq, not_true_eq_false, if_false]
  exact bind_ok traced

/-- A call that is refused fails at once. -/
theorem Overflows.fails {p : Point} {name : String} {loc : Option Loc} {m : Machine}
    (overflows : p.Overflows setting name loc m) : p.Fails setting (.raised (.tooDeep name) loc) m := by
  cases overflows with
  | call first second accepted named traced full =>
    refine (callNode_answer first second accepted named traced).trans ?_
    rw [if_pos full]
    rfl

/-- What the error of a point is to the error of another one that it started: the same, but for a wrapping of each
call in between. -/
structure Wraps (p q : Point) (outer inner : RuntimeError) : Prop where
  innermost : outer.innermost = inner.innermost
  length : outer.chain.length + p.task.depth = inner.chain.length + q.task.depth

/-- A point fails as soon as one that it started does, and on the same machine. -/
theorem Starts.fails {p q : Point} (start : p.Starts setting q) {e : RuntimeError} {m : Machine}
    (failed : q.Fails setting e m) : ∃ outer, p.Fails setting outer m ∧ Wraps p q outer e := by
  cases start with
  | @call _ _ _ _ _ loc _ _ _ _ _ name _ first second accepted named traced allowed =>
    refine ⟨.inCall name e loc, (callNode_answer first second accepted named traced).trans ?_, rfl, ?_⟩
    · rw [if_neg (Nat.not_le.mpr allowed)]
      exact wrapped_error name loc failed
    · simp only [RuntimeError.chain, List.length_cons, Task.depth]
      omega
  | exprStmt | printStmt | varDecl | ifCondition | returnStmt | firstNode | whileCondition | binaryLeft | assign
  | unary | logicalLeft | callee | firstArg => exact ⟨e, bind_error failed, rfl, rfl⟩
  | whileStmt | grouping => exact ⟨e, failed, rfl, rfl⟩
  | block entered => exact ⟨e, (bind_ok entered).trans failed, rfl, rfl⟩
  | placeholder entered => exact ⟨e, (bind_ok entered).trans (bind_error failed), rfl, rfl⟩
  | ifBranch asked traced present =>
    have taken := (congrFun (Run.branch_eq setting _ _ _ present) _).trans failed
    exact ⟨e, (bind_ok asked).trans ((bind_ok traced).trans taken), rfl, rfl⟩
  | forStmt entered declared named bounded =>
    refine ⟨e, (bind_ok entered).trans ((bind_ok declared).trans ?_), rfl, rfl⟩
    simp only [named]
    exact (bind_ok bounded).trans failed
  | initial present => exact ⟨e, (congrFun (Run.initial_eq setting _ _ _ present) _).trans failed, rfl, rfl⟩
  | laterNodes ran => exact ⟨e, (bind_ok ran).trans failed, rfl, rfl⟩
  | whileBody asked => exact ⟨e, (bind_ok asked).trans (bind_error failed), rfl, rfl⟩
  | whileAgain asked ran => exact ⟨e, (bind_ok asked).trans ((bind_ok ran).trans failed), rfl, rfl⟩
  | forBody assigned traced =>
    exact ⟨e, (bind_ok assigned).trans ((bind_ok traced).trans (bind_error failed)), rfl, rfl⟩
  | forAgain assigned traced ran =>
    exact ⟨e, (bind_ok assigned).trans ((bind_ok traced).trans ((bind_ok ran).trans failed)), rfl, rfl⟩
  | binaryRight first present =>
    refine ⟨e, (bind_ok first).trans ?_, rfl, rfl⟩
    simp only [present]
    exact bind_error failed
  | logicalRight first undecided =>
    refine ⟨e, (bind_ok first).trans ?_, rfl, rfl⟩
    simp only [undecided]
    exact failed
  | args first => exact ⟨e, (bind_ok first).trans (bind_error failed), rfl, rfl⟩
  | laterArgs first => exact ⟨e, (bind_ok first).trans (bind_error failed), rfl, rfl⟩
  | body entered bound => exact ⟨e, (bind_ok entered).trans ((bind_ok bound).trans (bind_error failed)), rfl, rfl⟩

/-- No more calls are active than the limit allows. -/
theorem Starts.depth_le {p q : Point} (start : p.Starts setting q) (within : p.task.depth ≤ setting.callLimit) :
    q.task.depth ≤ setting.callLimit := by
  cases start with
  | call _ _ _ _ _ allowed => exact allowed
  | _ => exact within

end Point

namespace Program

variable {setting : Setting} {fuel : Nat} {program : Program} {m : Machine} {p : Point}

theorem Reaches.depth_le (reached : program.Reaches setting fuel m p) : p.task.depth ≤ setting.callLimit := by
  induction reached with
  | statement => exact Nat.zero_le _
  | later _ _ ih => exact ih
  | inner _ start ih => exact start.depth_le ih

/-- A run fails as soon as one of its points does, and on the same machine. Its error has one wrapping for each
call that was active there. -/
theorem Reaches.fails (reached : program.Reaches setting fuel m p) {e : RuntimeError} {m' : Machine}
    (failed : p.Fails setting e m') (result : Value) :
    ∃ outer, Run.interpretFrom setting fuel result program m = .error (.error outer) m' ∧
      outer.innermost = e.innermost ∧ outer.chain.length = e.chain.length + p.task.depth := by
  induction reached generalizing e result with
  | statement => exact ⟨e, Run.bind_error failed, rfl, rfl⟩
  | later ran _ ih =>
    obtain ⟨outer, rest, wraps⟩ := ih failed _
    exact ⟨outer, (Run.bind_ok ran).trans rest, wraps⟩
  | inner _ start ih =>
    obtain ⟨middle, before, wraps⟩ := start.fails failed
    obtain ⟨outer, whole, innermost, length⟩ := ih before result
    exact ⟨outer, whole, innermost.trans wraps.innermost, length.trans wraps.length⟩

end Program

/-- The limit of calls decides about overflows only. Wherever a run comes to a call that the limit refuses, all of it
fails there and then, with an error of one wrapping for each call up to the limit, and the refusal innermost. If it
comes to none, the run is the same under every greater limit, whether and however it ends. -/
theorem Run.interpret_callLimit (setting : Setting) (fuel : Nat) (program : Program) (m : Machine) :
    (∀ p name loc m', program.Reaches setting fuel m p → p.Overflows setting name loc m' →
      ∃ e, interpret setting fuel program m = .error (.error e) m' ∧ e.innermost = .raised (.tooDeep name) loc ∧
        e.chain.length = setting.callLimit + 1) ∧
    ((∀ p name loc m', program.Reaches setting fuel m p → ¬p.Overflows setting name loc m') →
      ∀ callLimit ≥ setting.callLimit,
        interpret { setting with callLimit := callLimit } fuel program m = interpret setting fuel program m) := by
  constructor
  · intro p name loc m' reached overflows
    obtain ⟨e, failed, innermost, length⟩ := reached.fails overflows.fails .null
    have depth : p.task.depth = setting.callLimit := le_antisymm reached.depth_le overflows.full
    exact ⟨e, failed, innermost, by rw [length, depth, Nat.add_comm]; rfl⟩
  · intro calm callLimit greater
    have shows : Setting.Shows id setting { setting with callLimit := callLimit } :=
      ⟨fun _ _ => rfl, fun _ _ recorded => ⟨recorded, rfl⟩, fun _ _ recorded silent => absurd recorded silent, greater⟩
    have same : interpret _ fuel program m = seen id (interpret setting fuel program m) :=
      interpretFrom_agrees shows
        (fun {p} reached {name loc m'} overflows => absurd overflows (calm p name loc m' reached)) .null
    rw [same, seen_id]

/-- The call `f()`. -/
def Node.callOfF : Node := .call (.identifier (.str "f") none) [] none

/-- A function that calls itself without end. -/
def Closure.endless : Closure := ⟨.str "f", [], [.returnStmt .callOfF none], globalFrame, none⟩

/-- A program that declares the function and calls it. -/
def Program.endless : Program :=
  [.fnDecl Closure.endless.name Closure.endless.params Closure.endless.body none, .exprStmt .callOfF none]

namespace Point

variable {callLimit fuel depth : Nat} {f : FrameId} {m : Machine}

theorem trace_endless : Run.trace ⟨0, callLimit⟩ (.called "f" []) m = .ok () m := rfl

/-- Below the limit, the call of the endless function comes to its next call, which has a new frame. -/
theorem starts_endless (found : m.heap.get? f (.text "f") = some (.fn .endless)) (allowed : depth < callLimit) :
    Relation.ReflTransGen (Starts ⟨0, callLimit⟩) ⟨.evaluate (fuel + 6) depth f .callOfF, m⟩
      ⟨.evaluate (fuel + 1) (depth + 1) m.heap.size .callOfF, { m with heap := m.heap.push (some globalFrame) }⟩ :=
  .head (.call (Run.evaluate_identifier rfl rfl found) rfl rfl rfl trace_endless allowed)
    (.head (.body rfl rfl) (.head .firstNode (.head .returnStmt (.single (.initial nofun)))))

end Point

/-- At every depth up to the limit the endless function is called, from a frame in which it is seen. -/
theorem Program.endless_reaches {callLimit : Nat} (clock : Clock) : ∀ depth ≤ callLimit, ∃ f m,
    endless.Reaches ⟨0, callLimit⟩ (5 * callLimit + 3) (Machine.initial [] clock)
      ⟨.evaluate (5 * (callLimit - depth) + 2) depth f .callOfF, m⟩ ∧
    m.heap.get? f (.text "f") = some (.fn .endless) ∧
    globalFrame < m.heap.size ∧ m.heap.get? globalFrame (.text "f") = some (.fn .endless) := by
  intro depth
  induction depth with
  | zero =>
    intro _
    let declared := (Machine.initial [] clock).heap.bind globalFrame (.text "f") (.fn .endless)
    have bound : declared.get? globalFrame (.text "f") = some (.fn .endless) := by
      rw [Heap.get?_eq, Heap.holder?_own rfl]
      rfl
    exact ⟨globalFrame, _, .inner (.later rfl .statement) .exprStmt, bound, Nat.one_pos, bound⟩
  | succ depth ih =>
    intro within
    obtain ⟨f, m, reached, found, present, global⟩ := ih (by omega)
    have fuel : 5 * (callLimit - depth) + 2 = 5 * (callLimit - (depth + 1)) + 1 + 6 := by omega
    rw [fuel] at reached
    refine ⟨m.heap.size, _, reached.trans (Point.starts_endless found within), ?_, ?_, ?_⟩
    · exact (Heap.get?_push_new present _).trans global
    · exact present.trans (Nat.lt_of_lt_of_eq (Nat.lt_succ_self _) (Heap.size_push ..).symm)
    · exact (Heap.get?_push_old present _).trans global

/-- A function that calls itself without end goes beyond the limit of a thousand calls. -/
theorem Run.interpret_callLimit_endless :
    ∃ p m, Program.endless.Reaches {} 5003 (Machine.initial []) p ∧ p.Overflows {} "f" none m ∧
      ∃ e, interpret {} 5003 Program.endless (Machine.initial []) = .error (.error e) m ∧
        e.innermost = .raised (.tooDeep "f") none ∧ e.chain.length = 1001 := by
  obtain ⟨f, m, reached, found, -⟩ := Program.endless_reaches (.steady 1) 1000 le_rfl
  have overflows : Point.Overflows {} ⟨.evaluate 2 1000 f .callOfF, m⟩ "f" none m :=
    .call (Run.evaluate_identifier rfl rfl found) rfl rfl rfl Point.trace_endless (le_refl 1000)
  exact ⟨_, m, reached, overflows, (interpret_callLimit {} 5003 _ _).1 _ _ _ _ reached overflows⟩

end PhyLang
