/-!
# Binding powers

How tightly an operator binds its operands, from weakest to strongest.
-/

namespace Scriptlet

/-- A binding power. -/
inductive Power where
  /-- Weaker than every operator: the power at which a whole expression is read. -/
  | lowest
  | equality
  | comparison
  | additive
  | multiplicative
  | unary
  | call
  | primary
deriving DecidableEq, Repr

namespace Power

/-- The place of a power in the order, from the weakest. -/
def rank : Power → Nat
  | .lowest => 0
  | .equality => 1
  | .comparison => 2
  | .additive => 3
  | .multiplicative => 4
  | .unary => 5
  | .call => 6
  | .primary => 7

/-- Weaker powers are smaller. -/
instance : LE Power where
  le a b := a.rank ≤ b.rank

instance : LT Power where
  lt a b := a.rank < b.rank

instance (a b : Power) : Decidable (a ≤ b) := inferInstanceAs (Decidable (a.rank ≤ b.rank))

instance (a b : Power) : Decidable (a < b) := inferInstanceAs (Decidable (a.rank < b.rank))

instance : Ord Power where
  compare a b := compare a.rank b.rank

theorem rank_inj {a b : Power} : a.rank = b.rank ↔ a = b := by
  constructor
  · intro h
    cases a <;> cases b <;> simp_all [rank]
  · rintro rfl
    rfl

end Power

end Scriptlet
