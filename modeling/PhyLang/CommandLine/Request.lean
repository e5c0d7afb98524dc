import PhyLang.CommandLine.Path
import PhyLang.CommandLine.Usage
import PhyLang.Text.Digit

namespace PhyLang.CommandLine

/-- An argument on its own. Arguments are read so before any of them counts, and an ambiguous one is
refused then. -/
inductive Argument
  | plain (text : String)
  | divider
  /-- Short switches that stand together: the first one, and what is attached to it, if anything: the
  letters of more switches. -/
  | short (first : Flag) (attached : Option (List Char))
  | long (switch : Switch) (value : Option String)
  | unknown (text : String)
  deriving DecidableEq, Repr

namespace Argument

/-- Whether a text is a negative number: a dash, digits, and a point if digits follow it. A line end
behind it does not count. -/
def isNegativeNumber (text : List Char) : Bool :=
  let body := if text.getLast? = some '\n' then text.dropLast else text
  match body with
  | '-' :: rest =>
    match rest.dropWhile Text.isDigit with
    | [] => !rest.isEmpty
    | '.' :: places => !places.isEmpty && places.all Text.isDigit
    | _ => false
  | _ => false

def unclaimed (text : List Char) : Argument :=
  if isNegativeNumber text || text.contains ' ' then .plain (String.ofList text) else .unknown (String.ofList text)

def writtenValue (text : List Char) : Option String :=
  match text.dropWhile (· != '=') with
  | [] => none
  | _ :: value => some (String.ofList value)

/-- What is attached to a short switch by the text behind its letter. One equals sign at the start of
the text is skipped. -/
def attachedLetters : List Char → Option (List Char)
  | [] => none
  | '=' :: letters => some letters
  | letters => some letters

def ofChars (text : List Char) : Except Misuse Argument :=
  match text with
  | '-' :: '-' :: _ =>
    match Switch.startingWith (text.takeWhile (· != '=')) with
    | [] => .ok (unclaimed text)
    | [(_, switch)] => .ok (.long switch (writtenValue text))
    | several => .error (.ambiguous (String.ofList text) (several.map (·.1)))
  | '-' :: letter :: rest => .ok ((Switch.ofLetter? letter).elim (unclaimed text) (.short · (attachedLetters rest)))
  | _ => .ok (.plain (String.ofList text))

/-- The arguments that texts are. After a divider all of them are plain. -/
def ofTexts : List String → Except Misuse (List Argument)
  | [] => .ok []
  | text :: rest =>
    if text = "--" then .ok (.divider :: rest.map .plain)
    else do return (← ofChars text.toList) :: (← ofTexts rest)

/-- The switches whose letters follow the one of `first`. Letters from one on that stands for no switch
are an unexpected value of the switch before them. -/
def followers (first : Flag) : List Char → Except Misuse (List Flag)
  | [] => .ok []
  | letter :: rest =>
    match Switch.ofLetter? letter with
    | none => .error (.unexpectedValue first (String.ofList (letter :: rest)))
    | some next => do return next :: (← followers next rest)

def flags (first : Flag) : Option (List Char) → Except Misuse (List Flag)
  | none => .ok [first]
  | some [] => .error (.unexpectedValue first "")
  | some letters => do return first :: (← followers first letters)

/-- The path that is written behind a long switch in the switch's own argument. A divider there stands
for the empty path. -/
def writtenPath (value : String) : String := if value = "--" then "" else value

end Argument

/-- The place for the program among the arguments: free, taken by the argument just read, or taken
before. -/
inductive ProgramPlace
  | free
  | justTaken
  | taken
  deriving DecidableEq, Repr

structure Request where
  verbosity : Nat := 0
  file : Option (FileSwitch × String) := none
  program : Option String := none
  place : ProgramPlace := .free
  unrecognized : List String := []
  deriving DecidableEq, Repr, Inhabited

inductive Refusal
  | help
  | misuse (e : Misuse)
  deriving DecidableEq, Repr

namespace Request

/-- A request after an argument other than one for the program. -/
def settle (request : Request) : Request :=
  if request.place = .justTaken then { request with place := .taken } else request

def addUnrecognized (request : Request) (text : String) : Request :=
  { request.settle with unrecognized := request.unrecognized ++ [text] }

/-- A request with one more plain argument. The first one is the program. -/
def addPlain (request : Request) (text : String) : Request :=
  if request.place = .free then { request with program := some text, place := .justTaken }
  else request.addUnrecognized text

/-- A request with a divider. It belongs to the program's argument right in front of it or behind it. -/
def addDivider (request : Request) : Request :=
  if request.place = .taken then request.addUnrecognized "--" else request.settle

def addFlag (request : Request) : Flag → Except Refusal Request
  | .help => .error .help
  | .verbose => .ok { request.settle with verbosity := request.verbosity + 1 }

/-- A request with a switch that names a file. The later of two equal switches counts. -/
def addFile (request : Request) (switch : FileSwitch) (path : String) : Except Refusal Request :=
  match request.file with
  | some (earlier, _) =>
    if earlier ≠ switch then .error (.misuse (.conflict switch earlier))
    else .ok { request.settle with file := some (switch, path) }
  | none => .ok { request.settle with file := some (switch, path) }

/-- A request with more arguments. A long switch for a file takes the plain argument behind it if no
value is written in its own argument. -/
def addAll (request : Request) : List Argument → Except Refusal Request
  | [] => .ok request
  | .plain text :: rest => addAll (request.addPlain text) rest
  | .divider :: rest => addAll request.addDivider rest
  | .unknown text :: rest => addAll (request.addUnrecognized text) rest
  | .short first attached :: rest =>
    match Argument.flags first attached with
    | .error e => .error (.misuse e)
    | .ok flags => do addAll (← flags.foldlM addFlag request) rest
  | .long (.flag flag) none :: rest => do addAll (← request.addFlag flag) rest
  | .long (.flag flag) (some value) :: _ => .error (.misuse (.unexpectedValue flag value))
  | .long (.file switch) (some value) :: rest => do
    addAll (← request.addFile switch (Argument.writtenPath value)) rest
  | .long (.file switch) none :: .plain path :: rest => do addAll (← request.addFile switch path) rest
  | .long (.file switch) none :: _ => .error (.misuse (.missingValue switch))

def ofTexts (texts : List String) : Except Refusal Request :=
  match Argument.ofTexts texts with
  | .error e => .error (.misuse e)
  | .ok arguments => do
    let request ← addAll {} arguments
    if request.unrecognized.isEmpty then return request
    else throw (.misuse (.unrecognized request.unrecognized))

end Request

/-- What the command is to do with a file: write the program in it as a document, run the program
that it holds as a document, or run the program in it. -/
inductive Task
  | emit (path : Path)
  | load (path : Path)
  | run (path : Path)
  deriving DecidableEq, Repr

def Task.path : Task → Path
  | .emit path | .load path | .run path => path

/-- What a request asks for. An empty path asks for nothing. -/
def Request.task? (request : Request) : Option Task :=
  match request.file.filter (·.2 ≠ "") with
  | some (.emit, path) => some (.emit (.ofString path))
  | some (.load, path) => some (.load (.ofString path))
  | none => (request.program.filter (· ≠ "")).map fun path => .run (.ofString path)

end PhyLang.CommandLine
