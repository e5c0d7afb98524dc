namespace PhyLang

/-- An event of a run. Values are held as they are shown. -/
inductive Event
  | declared (name type value : String)
  | defined (name : String) (arity : Nat)
  | called (name : String) (args : List String)
  | branched (taken : Bool)
  | stepped (name : String) (value : Int)
  deriving DecidableEq, Repr, Inhabited

namespace Event

/-- The least level of detail at which an event is traced. -/
def level : Event → Int
  | .declared _ _ _ | .defined _ _ | .called _ _ => 2
  | .branched _ | .stepped _ _ => 3

def text : Event → String
  | .declared name type value => s!"declare {name}: {type} = {value}"
  | .defined name arity => s!"define function {name}/{arity}"
  | .called name args =>
    let listed := ", ".intercalate args
    s!"call {name}({listed})"
  | .branched taken => s!"if condition -> {taken}"
  | .stepped name value => s!"for {name} = {value}"

end Event

/-- What a run puts out: a line that the program prints, or an event of its trace. -/
inductive Output
  | printed (text : String)
  | traced (event : Event)
  deriving DecidableEq, Repr, Inhabited

namespace Output

def text : Output → String
  | .printed text => text
  | .traced event => event.text

def isTraced : Output → Bool
  | .printed _ => false
  | .traced _ => true

def lines (outputs : List Output) : String := String.join (outputs.map fun output => output.text ++ "\n")

/-- What the console shows of the output: the lines that the program prints and, if the trace goes
there too, those of the trace. -/
def console (showsTrace : Bool) (outputs : List Output) : String :=
  lines (outputs.filter fun output => showsTrace || !output.isTraced)

def traceFile (outputs : List Output) : String := lines (outputs.filter isTraced)

end Output

end PhyLang
