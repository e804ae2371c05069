import Scriptlet.Position
import Scriptlet.Text.Quoted

/-!
# Errors

An error is a cause and the position where it shows. Three causes come from characters and end the
reading of the text; two come from tokens, and reading goes on after them. All wording is here.
-/

namespace Scriptlet

/-- Why a text was refused. -/
inductive Cause where
  /-- No token starts with the character. -/
  | unexpectedCharacter (character : Char)
  /-- A string literal is not closed before the end of the text. -/
  | unterminatedText
  /-- An integer literal is too large. -/
  | numberTooLarge (digits : String)
  /-- The token does not fit where it stands. -/
  | unexpectedToken (lexeme message : String)
  /-- The tokens end where more are needed. -/
  | unexpectedEnd (message : String)
deriving DecidableEq, Repr

/-- A cause and where it shows. -/
structure Error where
  cause : Cause
  position : Position
deriving DecidableEq, Repr

namespace Cause

/-- The name under which a cause is reported. -/
def name : Cause → String
  | .unexpectedCharacter _ => "UnexpectedCharacter"
  | .unterminatedText => "UnterminatedString"
  | .numberTooLarge _ => "NumberParseError"
  | .unexpectedToken _ _ => "UnexpectedToken"
  | .unexpectedEnd _ => "UnexpectedEof"

/-- What could be put right, if there is anything to say. -/
def tip? : Cause → Option String
  | .unexpectedCharacter _ => none
  | .unterminatedText => some "String literal is missing its closing \x60\x22\x60"
  | .numberTooLarge digits =>
    some ("Invalid number: \x60" ++ digits ++ "\x60, is it above the integer limit?")
  | .unexpectedToken lexeme message =>
    some ("Unexpected token: \x60" ++ lexeme ++ "\x60, " ++ message)
  | .unexpectedEnd message => some ("Unexpected end of input, " ++ message)

/-- What went wrong, on one line. -/
def toString : Cause → String
  | .unexpectedCharacter c => "unexpected character: " ++ Text.quotedChar c
  | .unterminatedText => "unterminated string literal"
  | .numberTooLarge digits => "error parsing number: " ++ Text.quotedText digits
  | .unexpectedToken lexeme message =>
    "unexpected token " ++ Text.quotedText lexeme ++ ": " ++ message
  | .unexpectedEnd message => "unexpected end of input: " ++ message

/-- Whether the cause lies in the characters of the text. -/
def isLexical : Cause → Bool
  | .unexpectedCharacter _ | .unterminatedText | .numberTooLarge _ => true
  | .unexpectedToken _ _ | .unexpectedEnd _ => false

/-- Whether the cause lies in the order of the tokens. -/
def isSyntactic (c : Cause) : Bool := !c.isLexical

end Cause

namespace Error

/-- The error on one line, with its position. -/
def toString (e : Error) : String := e.cause.toString ++ " at " ++ e.position.toString

instance : ToString Error := ⟨toString⟩

end Error

end Scriptlet
