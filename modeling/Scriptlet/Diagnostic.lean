import Scriptlet.Error
import Scriptlet.Text.Lines

/-!
# Diagnostics

An error shown against its source: a heading, the name of the file, and the line in question with
a caret under the place. The line is shown without its indentation, and the caret moves with it.
-/

namespace Scriptlet

/-- The line of the source that holds the position, if there is one. -/
def lineAt? (source : String) (p : Position) : Option String :=
  (Text.line? source.toList p.line.toNat).map String.ofList

namespace Error

/-- The heading of a diagnostic: the name of the cause, and what could be put right. -/
def heading (e : Error) : String :=
  match e.cause.tip? with
  | none => "Error: " ++ e.cause.name
  | some tip => "Error: " ++ e.cause.name ++ " (" ++ tip ++ ")"

/-- A bar that stands below the one after a line number of the given width. -/
def bar (width : Nat) : String := String.ofList (List.replicate (width + 1) ' ') ++ "|"

/-- The error against its source. A position outside the text shows an empty line. The line is
numbered from one without a bound, as `Position.toString` numbers it. -/
def render (e : Error) (source file : String) : String :=
  let number := Nat.repr (e.position.line.toNat + 1)
  let line := (Text.line? source.toList e.position.line.toNat).getD []
  let indent := (line.takeWhile Text.isIndent).length
  let shown := String.ofList (Text.trimEnd (line.drop indent))
  let dashes := String.ofList (List.replicate (e.position.column.toNat - indent) '-')
  e.heading ++ "\n" ++
    "-> " ++ file ++ "\n" ++
    bar number.length ++ "\n" ++
    number ++ " | " ++ shown ++ "\n" ++
    bar number.length ++ " " ++ dashes ++ "^"

end Error

end Scriptlet
