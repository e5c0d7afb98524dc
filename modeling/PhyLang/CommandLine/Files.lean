import PhyLang.CommandLine.Path
import PhyLang.Text.Utf8

namespace PhyLang.CommandLine

/-- Files with their bytes, and the directories that hold them. They are held by their places, which
are paths without steps to a directory above, except for leading ones. -/
structure Files where
  directories : List Path := []
  entries : List (Path × List UInt8) := []
  deriving Inhabited

/-- Why there is no file to be had at the end of a path. -/
inductive Blockage
  | missing
  | directory
  | tooLong
  deriving DecidableEq, Repr, Inhabited

namespace Files

/-- Whether a place is a directory. The working directory, roots and what lies above are. -/
def isDirectory (files : Files) (here : Path) : Bool :=
  here.steps.all (· == Path.above) || files.directories.contains here

/-- The length in bytes up to which a step can be followed. -/
def stepLimit : Nat := 255

/-- The length in bytes up to which a path can be followed. -/
def pathLimit : Nat := 4095

/-- The place to which steps lead, each but the last from a directory. -/
def walk (files : Files) (here : Path) : List String → Except Blockage Path
  | [] => .ok here
  | step :: rest =>
    if !files.isDirectory here then .error .missing
    else if stepLimit < step.utf8ByteSize then .error .tooLong
    else files.walk (here.advance step) rest

def place (files : Files) (path : Path) : Except Blockage Path :=
  if pathLimit < path.text.utf8ByteSize then .error .tooLong else files.walk ⟨path.root, []⟩ path.steps

def bytesAt (files : Files) (here : Path) : Except Blockage (List UInt8) :=
  if files.isDirectory here then .error .directory
  else match files.entries.find? (·.1 == here) with
    | some (_, bytes) => .ok bytes
    | none => .error .missing

def read (files : Files) (path : Path) : Except Blockage (List UInt8) := do files.bytesAt (← files.place path)

def set (files : Files) (here : Path) (bytes : List UInt8) : Files :=
  { files with entries := (files.entries.filter fun entry => !(entry.1 == here)) ++ [(here, bytes)] }

/-- Files with a text written to the end of a path, unless a directory is there. -/
def write (files : Files) (path : Path) (text : String) : Except Blockage Files := do
  let here ← files.place path
  if files.isDirectory here then throw .directory
  return files.set here (Text.Utf8.encode text)

/-- Files with given bytes at the end of steps from a place, and with the directories on the way. -/
def addFrom (files : Files) (here : Path) (bytes : List UInt8) : List String → Files
  | [] => files.set here bytes
  | step :: rest => addFrom { files with directories := here :: files.directories } (here.advance step) bytes rest

def add (files : Files) (path : Path) (bytes : List UInt8) : Files :=
  files.addFrom ⟨path.root, []⟩ bytes path.steps

def changes (before after : Files) : List (Path × List UInt8) :=
  after.entries.filter fun entry => !before.entries.contains entry

end Files

end PhyLang.CommandLine
