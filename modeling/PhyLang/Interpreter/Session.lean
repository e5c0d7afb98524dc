import PhyLang.Grammar.Program
import PhyLang.Interpreter.Evaluation

namespace PhyLang

def globalFrame : FrameId := 0

namespace Machine

def readClock : Native := ⟨"clock", 0, .clock⟩

/-- A machine with a frame of global variables that holds nothing but functions of the host. -/
def initial (natives : List Native) (clock : Clock := .steady 1) : Machine where
  heap := (readClock :: natives).foldl (fun heap native => heap.bind globalFrame (.text native.name) (.native native))
    (Heap.empty.push none)
  clock := clock

def globals (m : Machine) : List Binding := (m.heap.frame? globalFrame).elim [] (·.bindings)

def outputs (m : Machine) : List Output := m.output.reverse

def notes (m : Machine) : List (List Value) := m.trail.reverse

end Machine

namespace Run

/-- More steps than any run that ends can take in a lifetime. -/
def plenty : Nat := Nat.pow 2 62

/-- Runs the statements of a program in the frame of the global variables. The result is the value of
the last statement; a value that is returned outside of functions is an error. -/
def interpretFrom (setting : Setting) (fuel : Nat) (result : Value) : Program → Run Value
  | [] => pure result
  | node :: rest => do
    match ← execute setting fuel 0 globalFrame node with
    | .value v => interpretFrom setting fuel v rest
    | .returned v => fail (.returned v) none

/-- Runs a program with a given number of steps for each statement. -/
def interpret (setting : Setting) (fuel : Nat) (program : Program) : Run Value :=
  interpretFrom setting fuel .null program

/-- Runs the program that a source text denotes on a new machine. -/
def interpretSource (setting : Setting) (fuel : Nat) (source : String) (clock : Clock := .steady 1) :
    Except SyntaxError (EStateM.Result Stop Machine Value) :=
  (Program.parse source).map fun program => interpret setting fuel program (Machine.initial [] clock)

end Run

end PhyLang
