namespace PhyLang.Text

/-- A text with a line feed for each end of a line, which is a line feed, a carriage return, or a
carriage return with a line feed behind it. -/
def unifyLineEnds : List Char → List Char
  | [] => []
  | '\r' :: '\n' :: rest => '\n' :: unifyLineEnds rest
  | '\r' :: rest => '\n' :: unifyLineEnds rest
  | c :: rest => c :: unifyLineEnds rest

end PhyLang.Text
