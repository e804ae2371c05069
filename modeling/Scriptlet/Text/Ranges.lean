/-!
# Tables of code points

A set of characters is kept as an ascending table of inclusive ranges of code points.
-/

namespace Scriptlet.Text

/-- An ascending table of inclusive ranges of code points. -/
abbrev Ranges := List (Nat × Nat)

/-- Whether some range of the table holds `n`. The search ends at the first range above `n`, which
is enough because the table ascends. -/
def Ranges.covers : Ranges → Nat → Bool
  | [], _ => false
  | (lo, hi) :: rest, n => lo ≤ n && (n ≤ hi || covers rest n)

end Scriptlet.Text
