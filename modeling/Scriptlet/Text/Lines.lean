import Scriptlet.Text.Blank

/-!
# Lines of a text

A text has one line more than it has line feeds. A carriage return before a line feed, or at the end
of the text, belongs to the end of its line and not to what the line says.
-/

namespace Scriptlet.Text

/-- The line without the one carriage return that may end it. -/
def dropCarriageReturn (l : List Char) : List Char :=
  if l.getLast? = some '\r' then l.dropLast else l

/-- What line `n` says, counted from zero. -/
def line? (cs : List Char) (n : Nat) : Option (List Char) :=
  (cs.splitOn '\n')[n]?.map dropCarriageReturn

/-- A text without line feeds is its own first line. -/
theorem line?_zero_of_not_mem {cs : List Char} (h : '\n' ∉ cs) :
    line? cs 0 = some (dropCarriageReturn cs) := by
  rw [line?, List.splitOn_eq_singleton h]
  rfl

end Scriptlet.Text
