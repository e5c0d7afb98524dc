import PhyLang.Ast.Basic

namespace PhyLang

abbrev FrameId := Nat

/-- A function that a program declares. It holds the frame that it was declared in by number, so
that all functions of one frame see the same variables. -/
structure Closure where
  name : Json
  params : List Json
  body : List Node
  frame : FrameId
  loc : Option Loc
  deriving Inhabited

/-- What a function of the host does: `clock` gives the time in seconds since some moment before,
`count` notes its arguments on the trail and gives the number of notes there. -/
inductive NativeAction
  | clock
  | first
  | count
  | nothing
  | fail (kind message : String)
  deriving DecidableEq, Repr, Inhabited

structure Native where
  name : String
  arity : Int
  action : NativeAction
  deriving DecidableEq, Repr, Inhabited

/-- Something of the host that is no value of the language. A running program sees no more of it
than a type and a text, and can only hand it on. -/
structure Foreign where
  type : String
  text : String
  deriving DecidableEq, Repr, Inhabited

inductive Value
  | int (value : Int)
  | real (value : Float)
  | str (value : String)
  | bool (value : Bool)
  | null
  | fn (closure : Closure)
  | native (function : Native)
  /-- Something that can be called, of which nothing else is known. -/
  | callable
  /-- A value on its way out of a function. An expression with this value ends the function. -/
  | signal (value : Value)
  | foreign (thing : Foreign)
  deriving Inhabited

namespace Value

/-- The value of a text literal, which in a document may hold any JSON value. Null, a list or an object
of a document is no value of the language. -/
def ofJson : Json → Value
  | .int n => .int n
  | .real x => .real x
  | .str s => .str s
  | .bool b => .bool b
  | value => .foreign ⟨value.kindName, value.shownInside⟩

def hostType : Value → String
  | .int _ => "int"
  | .real _ => "float"
  | .str _ => "str"
  | .bool _ => "bool"
  | .null => "NullVal"
  | .fn _ => "UserFunction"
  | .native _ => "NativeFunction"
  | .callable => "Callable"
  | .signal _ => "ReturnSignal"
  | .foreign thing => thing.type

/-- The name of the type of a value. What is no value of the language is named as the host names it. -/
def typeName : Value → String
  | .real _ => "real"
  | .null => "null"
  | .fn _ => "fn"
  | .native _ => "native fn"
  | .callable => "callable"
  | value => value.hostType

def shownInside : Value → String
  | .int n => toString n
  | .real x => Real.text x
  | .str s => Text.quote s
  | .bool true => "True"
  | .bool false => "False"
  | .null => "null"
  | .fn closure => s!"<fn {closure.name.shown}>"
  | .native function => s!"<native fn {function.name}>"
  | .callable => "<callable>"
  | .signal value => s!"ReturnSignal({value.shownInside})"
  | .foreign thing => thing.text

def text : Value → String
  | .str s => s
  | .bool true => "true"
  | .bool false => "false"
  | value => value.shownInside

def isNull : Value → Bool
  | .null => true
  | _ => false

def isNumeric : Value → Bool
  | .int _ | .real _ => true
  | _ => false

def arity? : Value → Option Int
  | .fn closure => some closure.params.length
  | .native function => some function.arity
  | _ => none

def isCallable : Value → Bool
  | .fn _ | .native _ | .callable => true
  | _ => false

end Value

end PhyLang
