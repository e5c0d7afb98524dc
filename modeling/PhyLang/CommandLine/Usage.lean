import PhyLang.Text.Quoted

namespace PhyLang.CommandLine

inductive Flag
  | help
  | verbose
  deriving DecidableEq, Repr

/-- A switch that names a file to work on in a special way. At most one of the two may be used. -/
inductive FileSwitch
  | emit
  | load
  deriving DecidableEq, Repr

inductive Switch
  | flag (flag : Flag)
  | file (switch : FileSwitch)
  deriving DecidableEq, Repr

namespace Switch

/-- The short switches, which are written after one dash and may stand together. None names a file. -/
def ofLetter? : Char → Option Flag
  | 'h' => some .help
  | 'v' => some .verbose
  | _ => none

def long : List (String × Switch) :=
  [("--help", .flag .help), ("--emit-ast", .file .emit), ("--ast", .file .load)]

def startingWith (word : List Char) : List (String × Switch) :=
  long.filter fun (spelling, _) => word.isPrefixOf spelling.toList

/-- A switch as messages name it. -/
def name : Switch → String
  | .flag .help => "-h/--help"
  | .flag .verbose => "-v"
  | .file .emit => "--emit-ast"
  | .file .load => "--ast"

end Switch

inductive Misuse
  | ambiguous (argument : String) (spellings : List String)
  | missingValue (switch : FileSwitch)
  | unexpectedValue (flag : Flag) (value : String)
  | conflict (later earlier : FileSwitch)
  | unrecognized (arguments : List String)
  | missingProgram
  deriving DecidableEq, Repr

namespace Misuse

def description : Misuse → String
  | .ambiguous argument spellings =>
    let listed := ", ".intercalate spellings
    s!"ambiguous option: {argument} could match {listed}"
  | .missingValue switch => s!"argument {(Switch.file switch).name}: expected one argument"
  | .unexpectedValue flag value =>
    s!"argument {(Switch.flag flag).name}: ignored explicit argument " ++ Text.quote value
  | .conflict later earlier =>
    s!"argument {(Switch.file later).name}: not allowed with argument {(Switch.file earlier).name}"
  | .unrecognized arguments => "unrecognized arguments: " ++ " ".intercalate arguments
  | .missingProgram => "missing program file; or use --emit-ast/--ast"

def usage : String := "usage: phy [-h] [-v] [--emit-ast PHY_FILE | --ast AST_JSON_FILE] [program]\n"

def message (e : Misuse) : String := usage ++ s!"phy: error: {e.description}\n"

end Misuse

def helpText : String :=
  Misuse.usage ++ "\nPhy language interpreter\n\n" ++
    "positional arguments:\n  program              Phy program file (.phy) to execute\n\n" ++
    "options:\n  -h, --help           show this help message and exit\n" ++
    "  -v                   increase debug verbosity (can be repeated)\n" ++
    "  --emit-ast PHY_FILE  emit AST JSON for the given .phy file\n" ++
    "  --ast AST_JSON_FILE  execute AST from a JSON file\n"

end PhyLang.CommandLine
