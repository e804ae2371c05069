import Scriptlet.Grammar.Complaint
import Scriptlet.Token

/-!
# Rules

A rule reads from the front of a list of tokens. It either has a value and leaves the rest, or it
fails with a complaint about the first token of the rest; a failed rule keeps what it had read, and
no rule ever tries another way. Rules are put together by `do`, by `many` and by `chain`.
-/

namespace Scriptlet

/-- How a rule ends, and the tokens it leaves. -/
inductive Outcome (α : Type) where
  | ok (value : α) (rest : List Token)
  | fail (complaint : Complaint) (rest : List Token)

/-- The tokens that a rule leaves. -/
def Outcome.rest {α : Type} : Outcome α → List Token
  | .ok _ rest => rest
  | .fail _ rest => rest

/-- A rule with values in `α`. -/
def Rule (α : Type) := List Token → Outcome α

namespace Rule

variable {α β : Type}

instance : Monad Rule where
  pure a := fun ts => .ok a ts
  bind r f := fun ts =>
    match r ts with
    | .ok a rest => f a rest
    | .fail complaint rest => .fail complaint rest

@[simp] theorem pure_apply (a : α) (ts : List Token) : (pure a : Rule α) ts = .ok a ts := rfl

theorem bind_apply (r : Rule α) (f : α → Rule β) (ts : List Token) :
    (r >>= f) ts = match r ts with
      | .ok a rest => f a rest
      | .fail complaint rest => .fail complaint rest := rfl

/-- Fails where it stands. -/
def fail (complaint : Complaint) : Rule α := fun ts => .fail complaint ts

/-- The kind of the next token, which stays. -/
def kind? : Rule (Option Kind) := fun ts => .ok (ts.head?.map Token.kind) ts

/-- Reads the next token, whatever it is. -/
def take (complaint : Complaint) : Rule Token
  | [] => .fail complaint []
  | t :: ts => .ok t ts

/-- Reads a token of the given kind. -/
def expect (kind : Kind) (complaint : Complaint) : Rule Token
  | [] => .fail complaint []
  | t :: ts => if t.kind = kind then .ok t ts else .fail complaint (t :: ts)

/-- Reads a token if it is of one of the given kinds, and tells whether it was. -/
def acceptAny (kinds : List Kind) : Rule Bool
  | [] => .ok false []
  | t :: ts => if t.isOneOf kinds then .ok true ts else .ok false (t :: ts)

/-- Reads a token if it is of the given kind, and tells whether it was. -/
def accept (kind : Kind) : Rule Bool := acceptAny [kind]

/-- The tokens after the line ends that come first. -/
def afterLineEnds (ts : List Token) : List Token := ts.dropWhile (·.kind = .lineEnd)

/-- Skips line ends. -/
def skipLineEnds : Rule Unit := fun ts => .ok () (afterLineEnds ts)

/-- Reads items until there is none, with as many rounds left as `budget` has tokens. -/
def manyWithin (item : Rule (Option α)) : List Token → Rule (List α)
  | [] => Option.toList <$> item
  | _ :: budget => do
    match ← item with
    | none => return []
    | some a => return a :: (← manyWithin item budget)

/-- Reads items until there is none. Every item takes a token, so there are no more rounds than
tokens. -/
def many (item : Rule (Option α)) : Rule (List α) := fun ts => manyWithin item ts ts

/-- Extends a value link by link until there is no further link, with as many rounds left as
`budget` has tokens. -/
def chainWithin (link : α → Rule (Option α)) : List Token → α → Rule α
  | [], a => do return (← link a).getD a
  | _ :: budget, a => do
    match ← link a with
    | none => return a
    | some b => chainWithin link budget b

/-- Extends a value link by link until there is no further link. Every link takes a token, so there
are no more rounds than tokens. -/
def chain (link : α → Rule (Option α)) (a : α) : Rule α := fun ts => chainWithin link ts a ts

/-- One item or more, with commas between. -/
def separated (item : Rule α) : Rule (List α) := do
  let first ← item
  let others ← many (do if ← accept .comma then some <$> item else pure none)
  return first :: others

end Rule

end Scriptlet
