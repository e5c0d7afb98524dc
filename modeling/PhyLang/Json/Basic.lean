import PhyLang.Real.Text
import PhyLang.Text.Quoted

namespace PhyLang

/-- A JSON value. Integers have any size and are kept apart from reals; the fields of an object
stand in the order in which their names first came. -/
inductive Json
  | null
  | bool (value : Bool)
  | int (value : Int)
  | real (value : Float)
  | str (value : String)
  | arr (items : List Json)
  | obj (fields : List (String × Json))
  deriving Inhabited

namespace Json

def field? (name : String) (fields : List (String × Json)) : Option Json :=
  (fields.find? (·.1 == name)).map (·.2)

/-- Fields with one more value: a name that is there already keeps its place. -/
def setField (name : String) (value : Json) : List (String × Json) → List (String × Json)
  | [] => [(name, value)]
  | (other, old) :: rest =>
    if other == name then (name, value) :: rest else (other, old) :: setField name value rest

mutual

/-- The text of a value inside a list or an object, where texts are quoted. -/
def shownInside : Json → String
  | .null => "None"
  | .bool true => "True"
  | .bool false => "False"
  | .int n => toString n
  | .real x => Real.text x
  | .str s => Text.quote s
  | .arr items => "[" ++ shownItems items ++ "]"
  | .obj fields => "\x7b" ++ shownFields fields ++ "\x7d"

def shownItems : List Json → String
  | [] => ""
  | [item] => shownInside item
  | item :: rest => shownInside item ++ ", " ++ shownItems rest

def shownFields : List (String × Json) → String
  | [] => ""
  | [(name, value)] => Text.quote name ++ ": " ++ shownInside value
  | (name, value) :: rest => Text.quote name ++ ": " ++ shownInside value ++ ", " ++ shownFields rest

end

/-- The text of a value in a message: a text stands for itself. -/
def shown : Json → String
  | .str s => s
  | value => value.shownInside

def kindName : Json → String
  | .null => "NoneType"
  | .bool _ => "bool"
  | .int _ => "int"
  | .real _ => "float"
  | .str _ => "str"
  | .arr _ => "list"
  | .obj _ => "dict"

/-- What a value holds when it is gone through one by one: the items of a list, the characters of a
text, the names of the fields of an object. Other values cannot be gone through. -/
def elements? : Json → Option (List Json)
  | .arr items => some items
  | .str s => some (s.toList.map fun c => .str c.toString)
  | .obj fields => some (fields.map fun field => .str field.1)
  | _ => none

end Json

end PhyLang
