/-
This file holds the finite double-precision numbers as what they are: a sign, a whole mantissa
below `2 ^ 53` and a power of two. All arithmetic on them is exact arithmetic on whole numbers
followed by one rounding, to the nearest double and to the even mantissa when two are equally near,
so nothing here depends on the machine's own floating point. Powers of two and of ten are named, because
limits and doubles are made from them.
-/

namespace ApiSurface.Decimal

/-- A power of two. -/
def twoTo (exponent : Nat) : Nat := Nat.pow 2 exponent

/-- A power of ten. -/
def tenTo (exponent : Nat) : Nat := Nat.pow 10 exponent

/-- The double `± mantissa * 2 ^ exponent`. The functions below keep the mantissa at least
`2 ^ 52` unless the exponent is the least one, `-1074`, so that equal numbers have equal parts. -/
structure Binary64 where
  /-- Whether the sign is negative; zero has both signs. -/
  negative : Bool
  /-- The whole number that the power of two scales. -/
  mantissa : Nat
  /-- The power of two, at least `-1074` and at most `971`. -/
  exponent : Int
  deriving DecidableEq, Repr, Inhabited

namespace Binary64

/-- The least power of two that a double has. -/
def leastExponent : Int := -1074

/-- The greatest power of two that a double has. -/
def greatestExponent : Int := 971

/-- Zero with a sign. -/
def zero (negative : Bool) : Binary64 := ⟨negative, 0, leastExponent⟩

/-- Whether the number is zero of either sign. -/
def isZero (number : Binary64) : Bool := number.mantissa == 0

/-- The same number with the sign turned. -/
def negate (number : Binary64) : Binary64 := { number with negative := !number.negative }

/-- The quotient rounded to the nearest whole number, a half to the even neighbour. -/
def roundQuotient (numerator denominator : Nat) : Nat :=
  let quotient := numerator / denominator
  let twice := 2 * (numerator % denominator)
  if twice < denominator || (twice == denominator && quotient % 2 == 0) then quotient
  else quotient + 1

/-- The power of two of the leading bit of a positive ratio. -/
def leadingBit (numerator denominator : Nat) : Int :=
  let guess : Int := (Nat.log2 numerator : Int) - Nat.log2 denominator
  let reached :=
    if 0 ≤ guess then denominator * twoTo guess.toNat ≤ numerator
    else denominator ≤ numerator * twoTo (-guess).toNat
  if reached then guess else guess - 1

/-- The double nearest to a ratio, or nothing when the ratio is beyond the greatest double. -/
def ofRatio? (negative : Bool) (numerator denominator : Nat) : Option Binary64 :=
  if numerator = 0 then some (zero negative)
  else
    let exponent := max leastExponent (leadingBit numerator denominator - 52)
    let mantissa :=
      if 0 ≤ exponent then roundQuotient numerator (denominator * twoTo exponent.toNat)
      else roundQuotient (numerator * twoTo (-exponent).toNat) denominator
    let (mantissa, exponent) :=
      if mantissa = twoTo 53 then (twoTo 52, exponent + 1) else (mantissa, exponent)
    if exponent ≤ greatestExponent then some ⟨negative, mantissa, exponent⟩ else none

/-- The size of the number as a ratio. -/
def ratio (number : Binary64) : Nat × Nat :=
  if 0 ≤ number.exponent then (number.mantissa * twoTo number.exponent.toNat, 1)
  else (number.mantissa, twoTo (-number.exponent).toNat)

/-- The double nearest to the product of two. -/
def multiply? (left right : Binary64) : Option Binary64 :=
  let (leftNumerator, leftDenominator) := left.ratio
  let (rightNumerator, rightDenominator) := right.ratio
  ofRatio? (left.negative != right.negative) (leftNumerator * rightNumerator)
    (leftDenominator * rightDenominator)

/-- The double nearest to the quotient of two, where the divisor is not zero. -/
def divide? (left right : Binary64) : Option Binary64 :=
  let (leftNumerator, leftDenominator) := left.ratio
  let (rightNumerator, rightDenominator) := right.ratio
  ofRatio? (left.negative != right.negative) (leftNumerator * rightDenominator)
    (leftDenominator * rightNumerator)

/-- The double nearest to `digits * 10 ^ power`. Powers so far out that the answer is settled by
their size alone are not computed. -/
def ofDecimal? (negative : Bool) (digits : Nat) (power : Int) : Option Binary64 :=
  if digits = 0 then some (zero negative)
  else if 400 < power then none
  else if power + (Nat.log2 digits : Int) < -1200 then some (zero negative)
  else if 0 ≤ power then ofRatio? negative (digits * tenTo power.toNat) 1
  else ofRatio? negative digits (tenTo (-power).toNat)

/-- The signed numerator and the denominator of the number. -/
def signedRatio (number : Binary64) : Int × Nat :=
  let (numerator, denominator) := number.ratio
  (if number.negative then -(numerator : Int) else numerator, denominator)

end Binary64

end ApiSurface.Decimal
