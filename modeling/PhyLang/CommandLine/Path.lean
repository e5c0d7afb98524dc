namespace PhyLang.CommandLine

/-- A path: its root, which is empty for the working directory, and its steps. Empty steps and steps
that stay in place do not count. -/
structure Path where
  root : String
  steps : List String
  deriving DecidableEq, Repr, Inhabited

namespace Path

def above : String := ".."

/-- The root of a written path. Exactly two leading slashes are a root of their own. -/
def rootOf (written : List Char) : String :=
  match (written.takeWhile (· == '/')).length with
  | 0 => ""
  | 2 => "//"
  | _ => "/"

def ofString (written : String) : Path :=
  ⟨rootOf written.toList, ((written.toList.splitOn '/').map String.ofList).filter fun step => step != "" && step != "."⟩

def text (path : Path) : String :=
  if path.root = "" ∧ path.steps = [] then "." else path.root ++ "/".intercalate path.steps

def extend (path : Path) (ending : String) : Path :=
  ⟨path.root, path.steps.dropLast ++ [path.steps.getLastD "" ++ ending]⟩

/-- The place to which a step leads. The directory above a root is the root; above the working
directory there are places without names of their own. -/
def advance (here : Path) (step : String) : Path :=
  if step ≠ above then ⟨here.root, here.steps ++ [step]⟩
  else if here.steps.getLastD above ≠ above then ⟨here.root, here.steps.dropLast⟩
  else if here.root = "" then ⟨here.root, here.steps ++ [step]⟩
  else here

end Path

end PhyLang.CommandLine
