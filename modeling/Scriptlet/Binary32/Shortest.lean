import Scriptlet.Binary32.Basic

/-!
# The shortest decimal of a single-precision number

Among the decimals that read back as a given number, the shortest has the fewest digits, and of
those with as few the nearest is taken. A decimal reads back when it lies in the interval of reals
that round to the number: from half-way to the neighbour below up to half-way to the neighbour
above, both ends included exactly if the significand is even.

The search goes from coarse decimal grids to finer ones. On each grid only the two points around
the number can be nearest, so it is enough to look at those.
-/

namespace Scriptlet

/-- The decimal `digits * 10 ^ power`. -/
structure Decimal where
  digits : Nat
  power : Int
deriving DecidableEq, Repr

/-- The greatest `e` with `10 ^ e ≤ num / den`, for positive `num` and `den`. -/
def log10Quotient (num den : Nat) : Int :=
  if den ≤ num then ((Nat.toDigits 10 (num / den)).length : Int) - 1
  else -((Nat.toDigits 10 ((den - 1) / num)).length : Int)

namespace Binary32

/-- The reals that round to a positive finite number, in units of a quarter of its last place. -/
structure Span where
  /-- Half-way to the neighbour below. -/
  low : Nat
  /-- The number itself. -/
  mid : Nat
  /-- Half-way to the neighbour above. -/
  high : Nat
  /-- The unit is `2 ^ power`. -/
  power : Int
  /-- Whether the ends belong to the span. -/
  closed : Bool

/-- The span of a finite number other than zero. Just above a power of two the neighbour below is
only half as far away as the one above, unless the numbers below are as coarse as those above. -/
def span (x : Binary32) : Span where
  low := 4 * x.significand - (if x.fraction = 0 ∧ 1 < x.storedExponent then 1 else 2)
  mid := 4 * x.significand
  high := 4 * x.significand + 2
  power := x.power - 2
  closed := x.significand % 2 = 0

/-- Of the two multiples of `10 ^ power` around the number, the one that reads back, the nearer if
both do, and the upper one if they are equally near. -/
def Span.onGrid? (s : Span) (power : Int) : Option Decimal :=
  -- A multiple `d` of the grid and a point `t` of the span compare as `d * step` and `t * unit`.
  let step := Nat.pow 10 power.toNat <<< (-s.power).toNat
  let unit := Nat.pow 10 (-power).toNat <<< s.power.toNat
  let below := s.mid * unit / step
  let above := below + 1
  let holds (d : Nat) : Bool :=
    if s.closed then s.low * unit ≤ d * step && d * step ≤ s.high * unit
    else s.low * unit < d * step && d * step < s.high * unit
  match holds below, holds above with
  | true, true =>
    if s.mid * unit - below * step < above * step - s.mid * unit then some ⟨below, power⟩
    else some ⟨above, power⟩
  | true, false => some ⟨below, power⟩
  | false, true => some ⟨above, power⟩
  | false, false => none

/-- The shortest decimal that reads back as a finite number other than zero, sign apart. Nine digits
always suffice, so the search ends there. -/
def shortest (x : Binary32) : Decimal :=
  let s := x.span
  let lead := log10Quotient (s.mid <<< s.power.toNat) (1 <<< (-s.power).toNat)
  ((List.range 9).findSome? fun (n : Nat) => s.onGrid? (lead - n)).getD ⟨0, 0⟩

end Binary32

end Scriptlet
