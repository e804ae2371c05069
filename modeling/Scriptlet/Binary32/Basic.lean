/-!
# Single-precision numbers

A number of the IEEE 754 format binary32, kept as its bits. Decoding is exact: a finite number is a
significand times a power of two, and everything else in the library computes on those two in
`Nat` and `Int`.
-/

namespace Scriptlet

/-- A binary32 number, given by its encoding: one sign bit, eight exponent bits and twenty-three
bits of fraction. -/
structure Binary32 where
  bits : UInt32
deriving DecidableEq, Repr

namespace Binary32

/-- The number zero with a positive sign. -/
def zero : Binary32 := ⟨0⟩

/-- The weight of the bit above the fraction. -/
def leadingBit : Nat := 0x800000

/-- Whether the sign bit is set. -/
def isNegative (x : Binary32) : Bool := 0x80000000 ≤ x.bits.toNat

/-- The exponent field as stored. -/
def storedExponent (x : Binary32) : Nat := x.bits.toNat / leadingBit % 0x100

/-- The fraction field as stored. -/
def fraction (x : Binary32) : Nat := x.bits.toNat % leadingBit

/-- Whether the encoding stands for no number. -/
def isNaN (x : Binary32) : Bool := x.storedExponent == 255 && x.fraction != 0

/-- Whether the encoding is one of the two infinities. -/
def isInfinite (x : Binary32) : Bool := x.storedExponent == 255 && x.fraction == 0

/-- The integer `m` of the magnitude `m * 2 ^ q`. A number with a stored exponent of zero lacks the
leading bit that the others have. -/
def significand (x : Binary32) : Nat :=
  if x.storedExponent = 0 then x.fraction else leadingBit + x.fraction

/-- The power `q` of the magnitude `m * 2 ^ q`. -/
def power (x : Binary32) : Int := (max x.storedExponent 1 : Nat) - 150

/-- Whether the magnitude is zero. -/
def isZero (x : Binary32) : Bool := x.storedExponent == 0 && x.fraction == 0

/-- Equality of the numbers that two encodings stand for: the zeros are equal, and what is not a
number equals nothing. -/
def sameNumber (x y : Binary32) : Bool :=
  !x.isNaN && !y.isNaN && (x.bits == y.bits || x.isZero && y.isZero)

end Binary32

end Scriptlet
