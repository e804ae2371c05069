import Scriptlet.Binary32.Printed
import Scriptlet.Kind
import Scriptlet.Position

/-!
# Tokens

A token is a kind, a payload and the position of its first character. The payload is what a reader
of the token needs beyond its kind; nothing ties it to the kind, so a token list can be written by
hand.

A token has three texts: the one it stands for (`lexeme`), the one in a listing (`toString`), and a
whole listing (`Token.listing`) breaks its lines where the source did.
-/

namespace Scriptlet

/-- What a token carries beside its kind. -/
inductive Payload where
  | none
  | name (s : String)
  | integer (n : Int32)
  | floating (x : Binary32)
  | text (s : String)
deriving DecidableEq, Repr

/-- Equality of payloads as values: floating numbers are compared as numbers. -/
def Payload.sameValue : Payload → Payload → Bool
  | .floating x, .floating y => x.sameNumber y
  | p, q => p = q

/-- A token of the language. -/
structure Token where
  kind : Kind
  payload : Payload
  position : Position
deriving DecidableEq, Repr

namespace Token

/-- The token of a kind that carries nothing. -/
def bare (kind : Kind) (position : Position) : Token := ⟨kind, .none, position⟩

/-- Equality of tokens as values, positions included. -/
def sameValue (a b : Token) : Bool :=
  a.kind = b.kind && a.payload.sameValue b.payload && a.position = b.position

/-- Whether the token is of one of the kinds. -/
def isOneOf (t : Token) (kinds : List Kind) : Bool := kinds.contains t.kind

/-- A string literal as it is written: there are no escapes, so its text stands as it is. -/
def quoted (s : String) : String := "\x22" ++ s ++ "\x22"

/-- The text that the token stands for. -/
def lexeme (t : Token) : String :=
  match t.payload with
  | .none => t.kind.symbol?.getD ""
  | .name s => s
  | .integer n => toString n.toInt
  | .floating x => x.toString
  | .text s => quoted s

/-- The token in a listing: its kind, and its payload in parentheses. -/
def toString (t : Token) : String :=
  match t.payload with
  | .none => t.kind.label
  | _ => t.kind.label ++ "(" ++ t.lexeme ++ ")"

instance : ToString Token := ⟨toString⟩

/-- The listing of one token: a line end breaks the line, any other token is followed by a space. -/
def listed (t : Token) : String :=
  if t.kind = .lineEnd then "\n" else t.toString ++ " "

/-- The listing of a list of tokens. -/
def listing (ts : List Token) : String := String.join (ts.map listed)

/-- The position of the last token, and the first place of a text if there is no token. -/
def endPosition (ts : List Token) : Position := (ts.getLast?.map position).getD .origin

end Token

end Scriptlet
