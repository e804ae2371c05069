import Scriptlet.Binary32.Shortest

/-!
# Printed numbers

How a single-precision number is written: its shortest decimal, either in full, always with a
point, or with an exponent of ten when it is very large or very small.
-/

namespace Scriptlet

/-- The choices of a written form that the digits leave open. -/
structure NumberLayout where
  /-- The least exponent of the first digit for which the number is written in full. -/
  leastInFull : Int
  /-- The greatest such exponent. -/
  greatestInFull : Int
  /-- What is written after an integer to show that it is not one by type. -/
  integralSuffix : String
  /-- The mark before the exponent of ten. -/
  exponentMark : String
  infinity : String
  notANumber : String

namespace NumberLayout

/-- Numbers from `0.0001` to below `10 ^ 16` are written in full, and integers end in `.0`. -/
def literal : NumberLayout := ⟨-4, 15, ".0", "e", "inf", "NaN"⟩

/-- The digits without the zeros at their end. -/
def significantDigits (d : Decimal) : List Char :=
  ((Nat.toDigits 10 d.digits).reverse.dropWhile (· == '0')).reverse

/-- The exponent of the first digit of a decimal. -/
def leadingExponent (d : Decimal) : Int :=
  d.power + (Nat.toDigits 10 d.digits).length - 1

/-- The decimal with all its digits in place, where `exponent` is that of the first. -/
def inFull (layout : NumberLayout) (digits : List Char) (exponent : Int) : String :=
  let whole := (exponent + 1).toNat
  if exponent < 0 then
    "0." ++ String.ofList (List.replicate (-(exponent + 1)).toNat '0' ++ digits)
  else if digits.length ≤ whole then
    String.ofList (digits ++ List.replicate (whole - digits.length) '0') ++ layout.integralSuffix
  else
    String.ofList (digits.take whole) ++ "." ++ String.ofList (digits.drop whole)

/-- The decimal as a number from one to below ten and an exponent of ten. -/
def scientific (layout : NumberLayout) (digits : List Char) (exponent : Int) : String :=
  let tail := if digits.length ≤ 1 then "" else "." ++ String.ofList (digits.drop 1)
  let sign := if exponent < 0 then "-" else ""
  String.ofList (digits.take 1) ++ tail ++ layout.exponentMark ++ sign ++ Nat.repr exponent.natAbs

/-- The written form of a decimal other than zero. -/
def decimal (layout : NumberLayout) (d : Decimal) : String :=
  let digits := significantDigits d
  let exponent := leadingExponent d
  if layout.leastInFull ≤ exponent && exponent ≤ layout.greatestInFull then
    layout.inFull digits exponent
  else
    layout.scientific digits exponent

/-- The written form of a number without its sign. -/
def magnitude (layout : NumberLayout) (x : Binary32) : String :=
  if x.isInfinite then layout.infinity
  else if x.isZero then "0" ++ layout.integralSuffix
  else layout.decimal x.shortest

/-- The written form of a number. The sign of zero shows; what is not a number has none. -/
def print (layout : NumberLayout) (x : Binary32) : String :=
  if x.isNaN then layout.notANumber
  else if x.isNegative then "-" ++ layout.magnitude x
  else layout.magnitude x

end NumberLayout

/-- The text of a number in the form of a literal. -/
def Binary32.toString (x : Binary32) : String := NumberLayout.literal.print x

instance : ToString Binary32 := ⟨Binary32.toString⟩

end Scriptlet
