import PhyLang.Grammar.Statement
import PhyLang.Source.Terminated
import PhyLang.Token.Scan
import PhyLang.Text.Quoted

namespace PhyLang

inductive SyntaxError
  | unknownCharacter (c : Char) (place : Source.Position)
  | unexpectedToken (text : List Char) (place : Source.Position)
  | unexpectedEnd
  | stringLiteral (place : Source.Position)
  | tooManyDigits
  deriving DecidableEq, Repr

namespace SyntaxError

/-- The place of an error, which an early end and an unreadable number have not. -/
def place? : SyntaxError → Option Source.Position
  | .unknownCharacter _ place | .unexpectedToken _ place | .stringLiteral place => some place
  | .unexpectedEnd | .tooManyDigits => none

def description : SyntaxError → String
  | .unknownCharacter c _ => "unexpected character " ++ Text.quote c.toString
  | .unexpectedToken text _ => "unexpected token " ++ Text.quote (String.ofList text)
  | .unexpectedEnd => "unexpected end of input"
  | .stringLiteral _ => "invalid string literal"
  | .tooManyDigits => "too many digits"

def message (e : SyntaxError) : String :=
  match e.place? with
  | some place => s!"{e.description} at {place.line}:{place.column}"
  | none => e.description

end SyntaxError

namespace Grammar

def endingError? : Token.Ending → Option SyntaxError
  | .finished => none
  | .misplaced text place => some (.unexpectedToken text place)
  | .unknown c place => some (.unknownCharacter c place)

/-- The error where reading stopped: at a token, or where the tokens end. -/
def errorAt (ending : Token.Ending) : List Token → SyntaxError
  | token :: _ => .unexpectedToken token.text token.span.start
  | [] => (endingError? ending).getD .unexpectedEnd

def literalError? (tokens : List Token) : Option SyntaxError :=
  tokens.findSome? fun token => (Token.literalFault? token).map fun
    | .string => .stringLiteral token.span.start
    | .tooLong => .tooManyDigits

/-- The program that a sequence of tokens forms. The first token that does not fit is reported
before anything that is wrong inside of a literal. -/
def parseTokens (scanned : Token.Scanned) : Except SyntaxError Program :=
  match program scanned.tokens with
  | .error left => .error (errorAt scanned.ending left)
  | .ok (statements, _) =>
    match (endingError? scanned.ending).or (literalError? scanned.tokens) with
    | some e => .error e
    | none => .ok statements

end Grammar

/-- The program that a source text denotes. Places refer to the terminated source. -/
def Program.parse (source : String) : Except SyntaxError Program :=
  Grammar.parseTokens (Token.scan (Source.terminate source.toList))

end PhyLang
