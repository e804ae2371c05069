/-!
# Positions

A position names a place in a source text. Both coordinates start at zero and count characters;
people are shown them from one.
-/

namespace Scriptlet

/-- A place in a source text: a line, and a column within it. -/
structure Position where
  line : UInt32
  column : UInt32
deriving DecidableEq, Repr

namespace Position

/-- The first place of every text. -/
def origin : Position := ⟨0, 0⟩

/-- Reading order: the earlier line comes first, and on one line the smaller column. -/
instance : LT Position where
  lt a b := a.line < b.line ∨ a.line = b.line ∧ a.column < b.column

instance (a b : Position) : Decidable (a < b) :=
  inferInstanceAs (Decidable (a.line < b.line ∨ a.line = b.line ∧ a.column < b.column))

instance : Ord Position where
  compare a b := if a < b then .lt else if a = b then .eq else .gt

/-- The place as people write it, `line:column` from one. One is added to a
coordinate as to a natural number: the largest coordinate is shown as 4294967296, not as a word that
has wrapped around. -/
def toString (p : Position) : String :=
  Nat.repr (p.line.toNat + 1) ++ ":" ++ Nat.repr (p.column.toNat + 1)

instance : ToString Position := ⟨toString⟩

end Position

end Scriptlet
