import Mathlib.Logic.Relation
import PhyLang.Interpreter.Session

namespace PhyLang

/-- A task of a run, with the fuel that it has left and the number of calls that are active. -/
inductive Task
  | execute (fuel depth : Nat) (f : FrameId) (node : Node)
  | initial (fuel depth : Nat) (f : FrameId) (expr : Node)
  | executeAll (fuel depth : Nat) (f : FrameId) (nodes : List Node)
  | executeWhile (fuel depth : Nat) (f : FrameId) (condition body : Node) (loc : Option Loc)
  | executeFor (fuel depth : Nat) (f : FrameId) (name : Json) (body : Node) (loc : Option Loc) (value : Int)
      (count : Nat)
  | evaluate (fuel depth : Nat) (f : FrameId) (node : Node)
  | evaluateAll (fuel depth : Nat) (f : FrameId) (nodes : List Node)
  | call (fuel depth : Nat) (callee : Value) (args : List Value)

/-- The value that a statement gives, returned or not. -/
def Completion.given : Completion → Value
  | .value v | .returned v => v

namespace Task

def fuel : Task → Nat
  | .execute fuel .. | .initial fuel .. | .executeAll fuel .. | .executeWhile fuel .. | .executeFor fuel ..
  | .evaluate fuel .. | .evaluateAll fuel .. | .call fuel .. => fuel

/-- The values that a task is handed. -/
def handed : Task → List Value
  | .call _ _ callee args => callee :: args
  | _ => []

/-- The run of a task, with the values that it gives. -/
def run (setting : Setting) : Task → Run (List Value)
  | .execute fuel depth f node => (fun c => [c.given]) <$> Run.execute setting fuel depth f node
  | .initial fuel depth f expr => (fun v => [v]) <$> Run.initial setting fuel depth f expr
  | .executeAll fuel depth f nodes => (fun c => [c.given]) <$> Run.executeAll setting fuel depth f nodes
  | .executeWhile fuel depth f condition body loc =>
    (fun c => [c.given]) <$> Run.executeWhile setting fuel depth f condition body loc
  | .executeFor fuel depth f name body loc value count =>
    (fun c => [c.given]) <$> Run.executeFor setting fuel depth f name body loc value count
  | .evaluate fuel depth f node => (fun v => [v]) <$> Run.evaluate setting fuel depth f node
  | .evaluateAll fuel depth f nodes => Run.evaluateAll setting fuel depth f nodes
  | .call fuel depth callee args => (fun v => [v]) <$> Run.call setting fuel depth callee args

end Task

/-- A task and the machine that it starts on. -/
structure Point where
  task : Task
  machine : Machine

namespace Point

open Run (newFrame trace assign bindParams rangeOf calleeName? isDecided)

/-- The second point is that of a task which the task at the first point starts. Running a node starts the
tasks of the nodes inside of it, and a call starts the body of the function. -/
inductive Starts (setting : Setting) : Point → Point → Prop
  | exprStmt {fuel depth f expr loc m} :
      Starts setting ⟨.execute (fuel + 1) depth f (.exprStmt expr loc), m⟩ ⟨.evaluate fuel depth f expr, m⟩
  | printStmt {fuel depth f expr loc m} :
      Starts setting ⟨.execute (fuel + 1) depth f (.printStmt expr loc), m⟩ ⟨.evaluate fuel depth f expr, m⟩
  | varDecl {fuel depth f name value loc m} :
      Starts setting ⟨.execute (fuel + 1) depth f (.varDecl name value loc), m⟩ ⟨.initial fuel depth f value, m⟩
  | block {fuel depth f nodes loc m inner m'} (entered : newFrame f m = .ok inner m') :
      Starts setting ⟨.execute (fuel + 1) depth f (.block nodes loc), m⟩ ⟨.executeAll fuel depth inner nodes, m'⟩
  | ifCondition {fuel depth f condition thenBranch elseBranch loc m} :
      Starts setting ⟨.execute (fuel + 1) depth f (.ifStmt condition thenBranch elseBranch loc), m⟩
        ⟨.evaluate fuel depth f condition, m⟩
  | ifBranch {fuel depth f condition thenBranch elseBranch loc m taken m' m''}
      (asked : Run.evaluate setting fuel depth f condition m = .ok (.bool taken) m')
      (traced : trace setting (.branched taken) m' = .ok () m'')
      (present : (if taken then thenBranch else elseBranch) ≠ .absent) :
      Starts setting ⟨.execute (fuel + 1) depth f (.ifStmt condition thenBranch elseBranch loc), m⟩
        ⟨.execute fuel depth f (if taken then thenBranch else elseBranch), m''⟩
  | whileStmt {fuel depth f condition body loc m} :
      Starts setting ⟨.execute (fuel + 1) depth f (.whileStmt condition body loc), m⟩
        ⟨.executeWhile fuel depth f condition body loc, m⟩
  | placeholder {fuel depth f placeholder start stop body loc m inner m'} (entered : newFrame f m = .ok inner m') :
      Starts setting ⟨.execute (fuel + 1) depth f (.forStmt placeholder start stop body loc), m⟩
        ⟨.execute fuel depth inner placeholder, m'⟩
  | forStmt {fuel depth f placeholder start stop body loc m inner m' c m'' name range m'''}
      (entered : newFrame f m = .ok inner m')
      (declared : Run.execute setting fuel depth inner placeholder m' = .ok c m'')
      (named : placeholder.declaredName? = some name) (bounded : rangeOf start stop m'' = .ok range m''') :
      Starts setting ⟨.execute (fuel + 1) depth f (.forStmt placeholder start stop body loc), m⟩
        ⟨.executeFor fuel depth inner name body loc range.start range.size, m'''⟩
  | returnStmt {fuel depth f value loc m} :
      Starts setting ⟨.execute (fuel + 1) depth f (.returnStmt value loc), m⟩ ⟨.initial fuel depth f value, m⟩
  | initial {fuel depth f expr m} (present : expr ≠ .absent) :
      Starts setting ⟨.initial (fuel + 1) depth f expr, m⟩ ⟨.evaluate fuel depth f expr, m⟩
  | firstNode {fuel depth f node rest m} :
      Starts setting ⟨.executeAll (fuel + 1) depth f (node :: rest), m⟩ ⟨.execute fuel depth f node, m⟩
  | laterNodes {fuel depth f node rest m v m'} (ran : Run.execute setting fuel depth f node m = .ok (.value v) m') :
      Starts setting ⟨.executeAll (fuel + 1) depth f (node :: rest), m⟩ ⟨.executeAll fuel depth f rest, m'⟩
  | whileCondition {fuel depth f condition body loc m} :
      Starts setting ⟨.executeWhile (fuel + 1) depth f condition body loc, m⟩ ⟨.evaluate fuel depth f condition, m⟩
  | whileBody {fuel depth f condition body loc m m'}
      (asked : Run.evaluate setting fuel depth f condition m = .ok (.bool true) m') :
      Starts setting ⟨.executeWhile (fuel + 1) depth f condition body loc, m⟩ ⟨.execute fuel depth f body, m'⟩
  | whileAgain {fuel depth f condition body loc m m' v m''}
      (asked : Run.evaluate setting fuel depth f condition m = .ok (.bool true) m')
      (ran : Run.execute setting fuel depth f body m' = .ok (.value v) m'') :
      Starts setting ⟨.executeWhile (fuel + 1) depth f condition body loc, m⟩
        ⟨.executeWhile fuel depth f condition body loc, m''⟩
  | forBody {fuel depth f name body loc value count m m' m''}
      (assigned : assign f name (.int value) .lostPlaceholder loc m = .ok () m')
      (traced : trace setting (.stepped name.shown value) m' = .ok () m'') :
      Starts setting ⟨.executeFor (fuel + 1) depth f name body loc value (count + 1), m⟩
        ⟨.execute fuel depth f body, m''⟩
  | forAgain {fuel depth f name body loc value count m m' m'' v m'''}
      (assigned : assign f name (.int value) .lostPlaceholder loc m = .ok () m')
      (traced : trace setting (.stepped name.shown value) m' = .ok () m'')
      (ran : Run.execute setting fuel depth f body m'' = .ok (.value v) m''') :
      Starts setting ⟨.executeFor (fuel + 1) depth f name body loc value (count + 1), m⟩
        ⟨.executeFor fuel depth f name body loc (value + 1) count, m'''⟩
  | binaryLeft {fuel depth f operator left right loc m} :
      Starts setting ⟨.evaluate (fuel + 1) depth f (.binary operator left right loc), m⟩
        ⟨.evaluate fuel depth f left, m⟩
  | binaryRight {fuel depth f operator left right loc m a m'}
      (first : Run.evaluate setting fuel depth f left m = .ok a m') (present : a.isNull = false) :
      Starts setting ⟨.evaluate (fuel + 1) depth f (.binary operator left right loc), m⟩
        ⟨.evaluate fuel depth f right, m'⟩
  | assign {fuel depth f name value loc m} :
      Starts setting ⟨.evaluate (fuel + 1) depth f (.assign name value loc), m⟩ ⟨.evaluate fuel depth f value, m⟩
  | grouping {fuel depth f expr loc m} :
      Starts setting ⟨.evaluate (fuel + 1) depth f (.grouping expr loc), m⟩ ⟨.evaluate fuel depth f expr, m⟩
  | unary {fuel depth f operator right loc m} :
      Starts setting ⟨.evaluate (fuel + 1) depth f (.unary operator right loc), m⟩ ⟨.evaluate fuel depth f right, m⟩
  | logicalLeft {fuel depth f operator left right loc m} :
      Starts setting ⟨.evaluate (fuel + 1) depth f (.logical operator left right loc), m⟩
        ⟨.evaluate fuel depth f left, m⟩
  | logicalRight {fuel depth f operator left right loc m a m'}
      (first : Run.evaluate setting fuel depth f left m = .ok (.bool a) m') (undecided : isDecided operator a = false) :
      Starts setting ⟨.evaluate (fuel + 1) depth f (.logical operator left right loc), m⟩
        ⟨.evaluate fuel depth f right, m'⟩
  | callee {fuel depth f callee args loc m} :
      Starts setting ⟨.evaluate (fuel + 1) depth f (.call callee args loc), m⟩ ⟨.evaluate fuel depth f callee, m⟩
  | args {fuel depth f callee args loc m function m'}
      (first : Run.evaluate setting fuel depth f callee m = .ok function m') :
      Starts setting ⟨.evaluate (fuel + 1) depth f (.call callee args loc), m⟩ ⟨.evaluateAll fuel depth f args, m'⟩
  | call {fuel depth f callee args loc m function m' values m'' name m'''}
      (first : Run.evaluate setting fuel depth f callee m = .ok function m')
      (second : Run.evaluateAll setting fuel depth f args m' = .ok values m'')
      (accepted : function.arity? = some values.length) (named : calleeName? function = some name)
      (traced : trace setting (.called name (values.map Value.text)) m'' = .ok () m''')
      (allowed : depth < setting.callLimit) :
      Starts setting ⟨.evaluate (fuel + 1) depth f (.call callee args loc), m⟩
        ⟨.call fuel (depth + 1) function values, m'''⟩
  | firstArg {fuel depth f node rest m} :
      Starts setting ⟨.evaluateAll (fuel + 1) depth f (node :: rest), m⟩ ⟨.evaluate fuel depth f node, m⟩
  | laterArgs {fuel depth f node rest m v m'} (first : Run.evaluate setting fuel depth f node m = .ok v m') :
      Starts setting ⟨.evaluateAll (fuel + 1) depth f (node :: rest), m⟩ ⟨.evaluateAll fuel depth f rest, m'⟩
  | body {fuel depth closure args m inner m' m''} (entered : newFrame closure.frame m = .ok inner m')
      (bound : bindParams inner closure.loc closure.params args m' = .ok () m'') :
      Starts setting ⟨.call (fuel + 1) depth (.fn closure) args, m⟩
        ⟨.executeAll fuel depth inner closure.body, m''⟩

/-- The integers that a point adds to a run which are no result of a calculation: literals that are
evaluated, and what a loop assigns to its placeholder. -/
inductive Introduces : Point → Int → Prop
  | literal {fuel depth f n loc m} : Introduces ⟨.evaluate (fuel + 1) depth f (.intLiteral n loc), m⟩ n
  | counter {fuel depth f name body loc n count m m'}
      (assigned : Run.assign f name (.int n) .lostPlaceholder loc m = .ok () m') :
      Introduces ⟨.executeFor (fuel + 1) depth f name body loc n (count + 1), m⟩ n

end Point

/-- The points of a run of a program that starts on a machine. -/
inductive Program.Reaches (setting : Setting) (fuel : Nat) : Program → Machine → Point → Prop
  | statement {node rest m} : Reaches setting fuel (node :: rest) m ⟨.execute fuel 0 globalFrame node, m⟩
  | later {node rest m v m' p} (ran : Run.execute setting fuel 0 globalFrame node m = .ok (.value v) m')
      (reached : Reaches setting fuel rest m' p) : Reaches setting fuel (node :: rest) m p
  | inner {program m p q} (reached : Reaches setting fuel program m p) (start : p.Starts setting q) :
      Reaches setting fuel program m q

end PhyLang
