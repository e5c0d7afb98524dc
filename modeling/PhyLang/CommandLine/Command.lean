import PhyLang.Ast.Document
import PhyLang.CommandLine.Files
import PhyLang.CommandLine.Request
import PhyLang.Grammar.Program
import PhyLang.Interpreter.Session
import PhyLang.Json.Reader
import PhyLang.Json.Writer
import PhyLang.Text.LineEnd

namespace PhyLang.CommandLine

/-- Why a file holds no program in the form of a document. -/
inductive LoadFault
  | encoding (fault : Text.Utf8.Fault)
  | json (input : List Char) (stop : Json.Stop)
  | document (fault : DocumentFault)
  deriving Inhabited

def LoadFault.message : LoadFault → String
  | .encoding fault => fault.message
  | .json input stop => stop.text input
  | .document fault => fault.message

/-- A failure that the command does not handle. -/
inductive Escape
  | blocked (path : Path) (blockage : Blockage)
  | encoding (fault : Text.Utf8.Fault)
  | source (e : SyntaxError)
  | document (fault : DocumentFault)
  | run (stop : Stop)
  deriving Inhabited

inductive Ending
  | success
  | misused (e : Misuse)
  | notFound (path : Path)
  | invalidDocument (path : Path) (fault : LoadFault)
  | invalidSource (e : SyntaxError)
  | failed (e : RuntimeError)
  | escaped (e : Escape)
  deriving Inhabited

namespace Ending

/-- The exit code, unless a failure escapes. -/
def exitCode? : Ending → Option UInt8
  | .success => some 0
  | .misused _ => some 2
  | .escaped _ => none
  | _ => some 1

def message : Ending → String
  | .success | .escaped _ => ""
  | .misused e => e.message
  | .notFound path => s!"Error: file {path.text} not found\n"
  | .invalidDocument path fault => s!"Error: invalid AST file {path.text}: {fault.message}\n"
  | .invalidSource e => s!"Syntax error: {e.message}\n"
  | .failed e => s!"Runtime error: {e.text}\n"

end Ending

structure Outcome where
  console : String
  ending : Ending
  files : Files
  deriving Inhabited

def Files.load (files : Files) (path : Path) : Except Ending (List UInt8) :=
  match files.read path with
  | .ok bytes => .ok bytes
  | .error .missing => .error (.notFound path)
  | .error blockage => .error (.escaped (.blocked path blockage))

/-- The text that bytes hold, with a line feed for each end of a line. -/
def decodeText (bytes : List UInt8) : Except Text.Utf8.Fault (List Char) :=
  (Text.Utf8.decode bytes).map Text.unifyLineEnds

def Files.readProgram (files : Files) (path : Path) : Except Ending Program := do
  match decodeText (← files.load path) with
  | .error fault => throw (.escaped (.encoding fault))
  | .ok source =>
    match Program.parse (String.ofList source) with
    | .error .tooManyDigits => throw (.escaped (.source .tooManyDigits))
    | .error e => throw (.invalidSource e)
    | .ok program => return program

/-- Whether a fault is about a number that is beyond the range of another kind of number. Such a fault
is not handled. -/
def isOutOfRange : DocumentFault → Bool
  | .infiniteInt | .largeReal => true
  | _ => false

def programOf (bytes : List UInt8) : Except LoadFault Program := do
  let input ← (decodeText bytes).mapError .encoding
  let json ← (Json.readDocument input).mapError (.json input)
  (Program.ofJson json).mapError .document

def Files.loadProgram (files : Files) (path : Path) : Except Ending Program := do
  match programOf (← files.load path) with
  | .ok program => return program
  | .error (.document fault) =>
    if isOutOfRange fault then throw (.escaped (.document fault)) else throw (.invalidDocument path (.document fault))
  | .error fault => throw (.invalidDocument path fault)

def traceFile : Path := ⟨"", ["debug.txt"]⟩

/-- Runs a program. If its trace has any level of detail, it goes to a file. -/
def execute (level : Nat) (program : Program) (files : Files) (clock : Clock := .steady 1) : Outcome :=
  match if level = 0 then .ok files else files.write traceFile "" with
  | .error blockage => ⟨"", .escaped (.blocked traceFile blockage), files⟩
  | .ok files =>
    let (ending, machine) : Ending × Machine :=
      match Run.interpret { level } Run.plenty program (Machine.initial [] clock) with
      | .ok _ machine => (.success, machine)
      | .error (.error e) machine => (.failed e, machine)
      | .error stop machine => (.escaped (.run stop), machine)
    let traced :=
      if level = 0 then files else (files.write traceFile (Output.traceFile machine.outputs)).toOption.getD files
    ⟨Output.console false machine.outputs, ending, traced⟩

def documentEnding : String := ".ast.json"

/-- Writes a program as a document beside its file. -/
def writeDocument (path : Path) (program : Program) (files : Files) : Outcome :=
  let target := path.extend documentEnding
  match files.write target program.toJson.document with
  | .ok files => ⟨target.text ++ "\n", .success, files⟩
  | .error blockage => ⟨"", .escaped (.blocked target blockage), files⟩

def Task.perform (task : Task) (level : Nat) (files : Files) (clock : Clock := .steady 1) : Outcome :=
  let outcome : Except Ending Outcome :=
    match task with
    | .emit path => do return writeDocument path (← files.readProgram path) files
    | .load path => do return execute level (← files.loadProgram path) files clock
    | .run path => do return execute level (← files.readProgram path) files clock
  match outcome with
  | .ok outcome => outcome
  | .error ending => ⟨"", ending, files⟩

/-- The command with given arguments on given files: it runs programs, writes them as documents, and
runs programs from documents. -/
def command (arguments : List String) (files : Files) (clock : Clock := .steady 1) : Outcome :=
  match Request.ofTexts arguments with
  | .error .help => ⟨helpText, .success, files⟩
  | .error (.misuse e) => ⟨"", .misused e, files⟩
  | .ok request =>
    match request.task? with
    | none => ⟨"", .misused .missingProgram, files⟩
    | some task => task.perform request.verbosity files clock

end PhyLang.CommandLine
