import Scriptlet.Program

/-!
# Cursors

A cursor reads a token list by hand: it stands before one of the tokens, has grammar tables of its
own, which start empty, and knows how many nesting levels are open. Every rule of the grammar can be
run from it. The token list never changes; an operation moves the cursor, changes the tables, or
opens and closes a level.
-/

namespace Scriptlet

/-- A place in a token list, with grammar tables and the nesting levels open there. -/
structure Cursor where
  tokens : List Token
  /-- The number of tokens read. -/
  index : Nat
  tables : Tables
  /-- The number of nesting levels open. -/
  depth : Nat

namespace Cursor

/-- The cursor at the start of a token list, with empty tables. -/
def ofTokens (ts : List Token) : Cursor := ⟨ts, 0, .empty, 0⟩

/-- The tokens ahead. -/
def rest (c : Cursor) : List Token := c.tokens.drop c.index

/-- The next token. -/
def current? (c : Cursor) : Option Token := c.tokens[c.index]?

/-- The token read last. -/
def previous? (c : Cursor) : Option Token :=
  if c.index = 0 then none else c.tokens[c.index - 1]?

/-- Whether all tokens are read. -/
def atEnd (c : Cursor) : Bool := c.tokens.length ≤ c.index

/-- Whether the next token is of the given kind. -/
def isAt (c : Cursor) (kind : Kind) : Bool := c.current?.map Token.kind = some kind

/-- The position of the next token, or of the last one when all are read. -/
def position (c : Cursor) : Position :=
  match c.current? with
  | some t => t.position
  | none => Token.endPosition c.tokens

/-- The error that complains about the next token. -/
def errorHere (c : Cursor) (complaint : Complaint) : Error :=
  complaint.toError (Token.endPosition c.tokens) c.rest

/-- The cursor before the given tokens, which are the last ones of its list. -/
def moveTo (c : Cursor) (rest : List Token) : Cursor :=
  { c with index := c.tokens.length - rest.length }

/-- Runs a rule from the cursor. A rule that fails has moved it too. -/
def run {α : Type} (c : Cursor) (rule : Rule α) : Except Error α × Cursor :=
  match rule c.rest with
  | .ok a rest => (.ok a, c.moveTo rest)
  | .fail complaint rest =>
    (.error (complaint.toError (Token.endPosition c.tokens) rest), c.moveTo rest)

/-- Moves past the next token, if there is one, and returns the token read last. -/
def advance (c : Cursor) : Option Token × Cursor :=
  let moved := { c with index := if c.atEnd then c.index else c.index + 1 }
  (moved.previous?, moved)

/-- Reads a token if it is of one of the given kinds, and tells whether it was. -/
def acceptAny (c : Cursor) (kinds : List Kind) : Bool × Cursor :=
  match c.run (Rule.acceptAny kinds) with
  | (.ok accepted, moved) => (accepted, moved)
  | (.error _, moved) => (false, moved)

/-- Reads a token of the given kind. -/
def expect (c : Cursor) (kind : Kind) (complaint : Complaint) : Except Error Token × Cursor :=
  c.run (Rule.expect kind complaint)

/-- Reads the next token, whatever it is. -/
def take (c : Cursor) (complaint : Complaint) : Except Error Token × Cursor :=
  c.run (Rule.take complaint)

/-- Skips line ends. -/
def skipLineEnds (c : Cursor) : Cursor := c.moveTo (Rule.afterLineEnds c.rest)

/-- Moves to the place where reading resumes after an error. -/
def resume (c : Cursor) : Cursor := c.moveTo (Program.resume c.rest)

/-- The rules for the parts of a form, by the cursor's tables and the levels left to it. -/
def below (c : Cursor) : Goal → Rule Tree := c.tables.read (nestingLimit - c.depth)

/-- Reads an expression whose operators bind tighter than `above`. -/
def expression (c : Cursor) (above : Power) : Except Error Tree × Cursor :=
  c.run (c.below (.expression above))

/-- Reads a form. -/
def handle (c : Cursor) (handler : Handler) : Except Error Tree × Cursor :=
  c.run (handler.rule c.below)

/-- Reads what extends the expression `left`. -/
def extend (c : Cursor) (extension : Extension) (left : Tree) (power : Power) :
    Except Error Tree × Cursor :=
  c.run (extension.rule c.below left power)

/-- Replaces the tables. -/
def withTables (c : Cursor) (tables : Tables) : Cursor := { c with tables := tables }

/-- Does `inner` with one more nesting level open, if there is one left. -/
def nested {α : Type} (c : Cursor) (inner : Cursor → Except Error α × Cursor) :
    Except Error α × Cursor :=
  if nestingLimit ≤ c.depth then
    (.error (c.errorHere .nestingTooDeep), c)
  else
    let (result, moved) := inner { c with depth := c.depth + 1 }
    (result, { moved with depth := moved.depth - 1 })

end Cursor

end Scriptlet
