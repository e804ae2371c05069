import Scriptlet.Binary32.Basic

/-!
# The nearest single-precision number

A positive quotient of integers becomes the binary32 number nearest to it. Of two equally near
ones the even significand is taken; from half a unit above the largest finite number on, the
answer is infinity.
-/

namespace Scriptlet

/-- The integer nearest to `num / den`, the even one if two are equally near. -/
def roundQuotient (num den : Nat) : Nat :=
  let q := num / den
  let twice := 2 * (num % den)
  if twice < den then q else if den < twice then q + 1 else q + q % 2

/-- The greatest `e` with `2 ^ e ≤ num / den`, for positive `num` and `den`. -/
def log2Quotient (num den : Nat) : Int :=
  let e : Int := (num.log2 : Int) - den.log2
  if den <<< e.toNat ≤ num <<< (-e).toNat then e else e - 1

namespace Binary32

/-- The encoding of positive infinity. -/
def infinityBits : Nat := 255 * leadingBit

/-- The number nearest to `num / den`, for positive `den`. The significand is counted in units of
`2 ^ q`, where `q` leaves it twenty-four bits or is the least power of the format. Adding it to the
exponent field also settles a carry out of the twenty-four bits, and an overflow. -/
def ofQuotient (num den : Nat) : Binary32 :=
  if num = 0 then zero
  else
    let q := max (log2Quotient num den - 23) (-149)
    let m := roundQuotient (num <<< (-q).toNat) (den <<< q.toNat)
    ⟨UInt32.ofNat (min ((q + 149).toNat * leadingBit + m) infinityBits)⟩

/-- The number nearest to the decimal fraction `digits / 10 ^ places`. -/
def ofDecimal (digits places : Nat) : Binary32 := ofQuotient digits (Nat.pow 10 places)

end Binary32

end Scriptlet
