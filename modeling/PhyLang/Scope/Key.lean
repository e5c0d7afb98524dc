import PhyLang.Real.Magnitude
import PhyLang.Json.Basic

namespace PhyLang

/-- What tells one variable of a frame from another. A name is a text, but a document may give
another value as a name; numbers and truth values that are equal as numbers are then the same name.
-/
inductive Key
  | text (name : String)
  | null
  | number (value : Int)
  | real (bits : UInt64)
  deriving DecidableEq, Repr, Inhabited

namespace Key

/-- The key of a real: a whole number has the key of that integer. -/
def ofReal (x : Float) : Key :=
  match Real.magnitude x with
  | .units count =>
    if count % Real.unitsInOne = 0 then .number (count / Real.unitsInOne) else .real x.toBits
  | _ => .real x.toBits

/-- The key of a name; a list or an object can be no name. -/
def ofJson? : Json → Option Key
  | .str s => some (.text s)
  | .null => some .null
  | .bool b => some (.number (if b then 1 else 0))
  | .int n => some (.number n)
  | .real x => some (ofReal x)
  | .arr _ | .obj _ => none

def toJson : Key → Json
  | .text name => .str name
  | .null => .null
  | .number value => .int value
  | .real bits => .real (Float.ofBits bits)

end Key

end PhyLang
