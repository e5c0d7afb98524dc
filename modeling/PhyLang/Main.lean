import PhyLang.CommandLine.Command

namespace PhyLang.CommandLine

def namedFile (arguments : List String) : IO Files :=
  match Request.ofTexts arguments with
  | .error _ => return {}
  | .ok request =>
    match request.task? with
    | none => return {}
    | some task =>
      try
        let bytes ← IO.FS.readBinFile task.path.text
        return ({} : Files).add task.path bytes.toList
      catch
        | .noFileOrDirectory .. => return {}
        | e => throw e

/-- Reads the file that the arguments name, lets the command work on it, writes what it printed and
the files that it changed, and gives its exit code. A failure that it does not handle counts as an
error. -/
def perform (arguments : List String) : IO UInt32 := do
  let files ← namedFile arguments
  let start ← IO.monoNanosNow
  let outcome := command arguments files (.steady (start.toFloat / 1000000000))
  IO.print outcome.console
  IO.eprint outcome.ending.message
  for (path, bytes) in Files.changes files outcome.files do
    IO.FS.writeBinFile path.text ⟨bytes.toArray⟩
  match outcome.ending.exitCode? with
  | some code => return code.toUInt32
  | none =>
    IO.eprintln "phy: the run failed outside of the language"
    return 1

end PhyLang.CommandLine

def main (arguments : List String) : IO UInt32 := PhyLang.CommandLine.perform arguments
