import PhyLang.Json.Basic

namespace PhyLang.Json

/-- The form of one character inside a JSON string: the two delimiters and the controls are escaped,
and characters beyond ASCII stand for themselves. -/
def escapeChar (c : Char) : List Char :=
  match c with
  | '"' => ['\\', '"']
  | '\\' => ['\\', '\\']
  | '\n' => ['\\', 'n']
  | '\r' => ['\\', 'r']
  | '\t' => ['\\', 't']
  | '\x08' => ['\\', 'b']
  | '\x0c' => ['\\', 'f']
  | c => if c.toNat < 0x20 then '\\' :: 'u' :: Text.hexDigits 4 c.toNat else [c]

def writeString (s : String) : List Char := '"' :: s.toList.flatMap escapeChar ++ ['"']

def writeReal (x : Float) : List Char :=
  match Real.magnitude x with
  | .undefined => "NaN".toList
  | .above => "Infinity".toList
  | .below => "-Infinity".toList
  | .units _ => (Real.text x).toList

mutual

/-- A value at a given depth, where `gap` is what comes before each item or closing bracket. -/
def write (gap : Nat → List Char) (depth : Nat) : Json → List Char
  | .null => "null".toList
  | .bool true => "true".toList
  | .bool false => "false".toList
  | .int n => (toString n).toList
  | .real x => writeReal x
  | .str s => writeString s
  | .arr [] => ['[', ']']
  | .arr (item :: rest) =>
    '[' :: gap (depth + 1) ++ write gap (depth + 1) item ++ writeItems gap depth rest
  | .obj [] => ['\x7b', '\x7d']
  | .obj ((name, value) :: rest) =>
    '\x7b' :: gap (depth + 1) ++ writeString name ++ ':' :: ' ' :: write gap (depth + 1) value ++
      writeFields gap depth rest

/-- The items of a list after the first one, and the closing bracket. -/
def writeItems (gap : Nat → List Char) (depth : Nat) : List Json → List Char
  | [] => gap depth ++ [']']
  | item :: rest => ',' :: gap (depth + 1) ++ write gap (depth + 1) item ++ writeItems gap depth rest

def writeFields (gap : Nat → List Char) (depth : Nat) : List (String × Json) → List Char
  | [] => gap depth ++ ['\x7d']
  | (name, value) :: rest =>
    ',' :: gap (depth + 1) ++ writeString name ++ ':' :: ' ' :: write gap (depth + 1) value ++
      writeFields gap depth rest

end

def indentation (depth : Nat) : List Char := '\n' :: List.replicate (2 * depth) ' '

def document (value : Json) : String := String.ofList (value.write indentation 0)

def line (value : Json) : String := String.ofList (value.write (fun _ => []) 0)

end PhyLang.Json
