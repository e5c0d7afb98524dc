import PhyLang.Integer.Text
import PhyLang.Json.Basic

namespace PhyLang

/-- Why a JSON value is no syntax tree. -/
inductive DocumentFault
  | notProgram
  | notNode
  | unknownKind (kind : Json)
  | missing (name : String)
  | notIterable (value : Json)
  | locNotIterable (value : Json)
  | locSize (size : Nat)
  | rangeNotIterable (value : Json)
  | rangeSize (size : Nat)
  | malformedInt (text : String)
  | longInt (digits : Nat)
  | notInt (value : Json)
  | undefinedInt
  | infiniteInt
  | malformedReal (text : String)
  | notReal (value : Json)
  | largeReal
  deriving Inhabited

namespace DocumentFault

def locParts : List String := ["line", "column", "end_line", "end_column"]

/-- Names in quotes, separated by commas and with a word before the last one. -/
def enumerate : List String → String
  | [] => ""
  | [a] => s!"'{a}'"
  | [a, b] => s!"'{a}' and '{b}'"
  | names =>
    let last := names.getLastD ""
    ", ".intercalate (names.dropLast.map fun n => s!"'{n}'") ++ s!", and '{last}'"

def locSizeMessage (size : Nat) : String :=
  let absent := locParts.drop size
  if 4 < size then s!"Loc.__init__() takes 5 positional arguments but {size + 1} were given"
  else
    let noun := if absent.length = 1 then "argument" else "arguments"
    s!"Loc.__init__() missing {absent.length} required positional {noun}: {enumerate absent}"

def rangeSizeMessage (size : Nat) : String :=
  if 2 < size then "too many values to unpack (expected 2)"
  else s!"not enough values to unpack (expected 2, got {size})"

/-- The first characters of a quoted text, as far as a message shows them. -/
def quotedStart (text : String) : String := String.ofList ((Text.quote text).toList.take 200)

def message : DocumentFault → String
  | .notProgram => "expected a Program object"
  | .notNode => "Invalid AST object"
  | .unknownKind kind => "Unknown AST node type: " ++ kind.shown
  | .missing name => Text.quote name
  | .notIterable value => s!"'{value.kindName}' object is not iterable"
  | .locNotIterable value => s!"phy.ast.Loc() argument after * must be an iterable, not {value.kindName}"
  | .locSize size => locSizeMessage size
  | .rangeNotIterable value => s!"cannot unpack non-iterable {value.kindName} object"
  | .rangeSize size => rangeSizeMessage size
  | .malformedInt text => "invalid literal for int() with base 10: " ++ quotedStart text
  | .longInt digits =>
    s!"Exceeds the limit ({Integer.digitLimit} digits) for integer string conversion: value has {digits} digits; " ++
      "use sys.set_int_max_str_digits() to increase the limit"
  | .notInt value =>
    s!"int() argument must be a string, a bytes-like object or a real number, not '{value.kindName}'"
  | .undefinedInt => "cannot convert float NaN to integer"
  | .infiniteInt => "cannot convert float infinity to integer"
  | .malformedReal text => "could not convert string to float: " ++ Text.quote text
  | .notReal value => s!"float() argument must be a string or a real number, not '{value.kindName}'"
  | .largeReal => "int too large to convert to float"

end DocumentFault

end PhyLang
