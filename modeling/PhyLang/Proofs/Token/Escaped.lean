import PhyLang.Proofs.Source.Literals

namespace PhyLang.Token

open Source (quoted)

/-- A character, as it is written between the quotes of a string. -/
def escapedChar : Char → List Char
  | '\\' => ['\\', '\\']
  | '"' => ['\\', '"']
  | '\n' => ['\\', 'n']
  | '\r' => ['\\', 'r']
  | '\x00' => ['\\', 'x', '0', '0']
  | c => [c]

/-- A text, as it is written between the quotes of a string. -/
def escaped (text : List Char) : List Char := text.flatMap escapedChar

/-- The literal of a text. -/
def literalOf (s : String) : String := String.ofList (quoted (escaped s.toList))

theorem IsInside.escapedChar {inside : List Char} (c : Char) (later : IsInside inside) :
    IsInside (escapedChar c ++ inside) := by
  unfold Token.escapedChar
  split
  case h_5 =>
    have digits : IsInside ('0' :: '0' :: inside) :=
      .plain (by decide) (by decide) (by decide) (.plain (by decide) (by decide) (by decide) later)
    exact .escaped (by decide) digits
  case h_6 noBackslash noQuote noLineEnd _ _ => exact .plain noQuote noBackslash noLineEnd later
  all_goals exact .escaped (by decide) later

theorem isInside_escaped (text : List Char) : IsInside (escaped text) := by
  induction text with
  | nil => exact .empty
  | cons c text ih => exact ih.escapedChar c

theorem unescape?_escape {code rest : List Char} {meant : Char}
    (found : escape? (code ++ rest) = some ([meant], code.length)) :
    unescape? ('\\' :: code ++ rest) = (unescape? rest).map (meant :: ·) := by
  rw [List.cons_append, unescape?, if_pos rfl, found]
  simp only [List.drop_left]
  rfl

theorem unescape?_plain {c : Char} (noBackslash : c ≠ '\\') (noReturn : c ≠ '\r') (noNull : c ≠ '\x00')
    (rest : List Char) : unescape? (c :: rest) = (unescape? rest).map (c :: ·) := by
  rw [unescape?, if_neg noBackslash, if_neg (by simp [noReturn, noNull])]

/-- What a character is written as stands for that character. -/
theorem unescape?_escapedChar (c : Char) (rest : List Char) :
    unescape? (escapedChar c ++ rest) = (unescape? rest).map (c :: ·) := by
  unfold escapedChar
  split
  case h_6 noBackslash _ _ noReturn noNull => exact unescape?_plain noBackslash noReturn noNull rest
  all_goals exact unescape?_escape rfl

theorem unescape?_escaped (text : List Char) : unescape? (escaped text) = some text := by
  induction text with
  | nil => rw [escaped, List.flatMap_nil, unescape?]
  | cons c text ih =>
    calc unescape? (escaped (c :: text))
      _ = (unescape? (escaped text)).map (c :: ·) := unescape?_escapedChar c (escaped text)
      _ = some (c :: text) := by rw [ih, Option.map_some]

theorem toList_literalOf (s : String) : (literalOf s).toList = quoted (escaped s.toList) := String.toList_ofList

/-- A literal is the text of a string token. -/
theorem isTextOf_literalOf (s : String) : IsTextOf .string (literalOf s).toList := by
  rw [toList_literalOf]
  exact .string (isInside_escaped s.toList) (by rw [unescape?_escaped]; rfl)

theorem stringValue?_literalOf (s : String) : stringValue? (literalOf s).toList = some s := by
  have inside : ((quoted (escaped s.toList)).drop 1).dropLast = escaped s.toList := List.dropLast_concat
  rw [toList_literalOf, stringValue?, inside, unescape?_escaped, Option.map_some, String.ofList_toList]

example : literalOf "a\\\"//\n" = "\"a\\\\\\\"//\\n\"" := by decide

end PhyLang.Token
