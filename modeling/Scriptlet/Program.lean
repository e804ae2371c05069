import Scriptlet.Grammar.Tables

/-!
# Programs

A program is a sequence of declarations with empty lines between. A declaration that cannot be read
is reported, the tokens up to the next likely start of a statement are left out, and reading goes
on there; so every token list has a reading.
-/

namespace Scriptlet

/-- A program as read: the declarations, and an error for each one that was given up. -/
structure Program where
  body : List Tree
  errors : List Error

namespace Program

/-- Whether something was given up. -/
def hasErrors (p : Program) : Bool := !p.errors.isEmpty

/-- The tokens from the place where reading resumes, when `previous` was the last one left out: after
a line end, or before a token that starts a statement. -/
def resumeAfter (previous : Kind) : List Token → List Token
  | [] => []
  | t :: ts =>
    if previous = .lineEnd || t.kind.startsStatement then t :: ts else resumeAfter t.kind ts

/-- The tokens from the place where reading resumes. At least one token is left out. -/
def resume : List Token → List Token
  | [] => []
  | t :: ts => resumeAfter t.kind ts

theorem length_resumeAfter_le (previous : Kind) (ts : List Token) :
    (resumeAfter previous ts).length ≤ ts.length := by
  induction ts generalizing previous with
  | nil => simp [resumeAfter]
  | cons t ts ih =>
    rw [resumeAfter]
    split
    · exact Nat.le_refl _
    · exact Nat.le_succ_of_le (ih _)

/-- Resuming from tokens leaves fewer of them. -/
theorem length_resume_lt {ts : List Token} (h : ts ≠ []) : (resume ts).length < ts.length := by
  cases ts with
  | nil => contradiction
  | cons t ts => exact Nat.lt_succ_of_le (length_resumeAfter_le _ _)

/-- The rule for a declaration of the language, with all nesting levels left. -/
def declaration : Rule Tree := Tables.standard.read nestingLimit .declaration

/-- What a token list holds, in order: declarations, and errors, of which the one at the end of the
tokens is reported at `endPosition`. There are as many rounds left as `budget` has tokens, and every
round takes a token. -/
def pieces (endPosition : Position) : (budget ts : List Token) → List (Except Error Tree)
  | [], _ => []
  | _ :: budget, ts =>
    match Rule.afterLineEnds ts with
    | [] => []
    | start =>
      match declaration start with
      | .ok tree rest => .ok tree :: pieces endPosition budget rest
      | .fail complaint rest =>
        .error (complaint.toError endPosition rest) :: pieces endPosition budget (resume rest)

/-- Reads a token list. -/
def ofTokens (ts : List Token) : Program :=
  let found := pieces (Token.endPosition ts) ts ts
  { body := found.filterMap fun
      | .ok tree => some tree
      | .error _ => none
    errors := found.filterMap fun
      | .ok _ => none
      | .error e => some e }

end Program

end Scriptlet
