/-
This file compares JSON values by what they stand for, where it does not matter how a number is held:
`1` and `1.0` are equal. It also says when one number is a multiple of another. That is exact for a whole
divisor; for any other the quotient is rounded to a double first, so that a tenth divides three tenths.
-/

import ApiSurface.Json.Value

namespace ApiSurface.Json

/-! ### Numbers -/

/-- Whether a number has no fractional part. -/
def Number.isWhole (number : Number) : Bool :=
  let (numerator, denominator) := number.ratio
  numerator.natAbs % denominator == 0

/-- The double nearest to a number. -/
def Number.nearestDouble : Number → Decimal.Binary64
  | .int value => (Decimal.Binary64.ofRatio? (value < 0) value.natAbs 1).getD (.zero false)
  | .double value => value

/-- The power of two below which what is left of a quotient counts as nothing. -/
def remainderPrecision : Nat := 52

/-- Whether one double is exactly a whole number of times another. -/
def isExactMultiple (number divisor : Decimal.Binary64) : Bool :=
  let (numerator, denominator) := number.ratio
  let (divisorNumerator, divisorDenominator) := divisor.ratio
  (numerator * divisorDenominator) % (denominator * divisorNumerator) == 0

/-- Whether a quotient exceeds the whole number below it by next to nothing. A negative one does. -/
def isNearlyWhole (quotient : Decimal.Binary64) : Bool :=
  let (numerator, denominator) := quotient.ratio
  quotient.negative || (numerator % denominator) * Decimal.twoTo remainderPrecision < denominator

/-- Whether a number is a multiple of another. -/
def Number.isMultipleOf (number divisor : Number) : Bool :=
  let left := number.nearestDouble
  let right := divisor.nearestDouble
  if (Number.double right).isWhole then isExactMultiple left right
  else
    match left.divide? right with
    | some quotient => isNearlyWhole quotient
    | none => isExactMultiple left right

/-! ### Values -/

mutual

/-- Whether two values are equal, where numbers are compared by value and the order of members does
not count. -/
def equal : Json → Json → Bool
  | .null, .null => true
  | .bool left, .bool right => left == right
  | .number left, .number right => left.compareValue right == .eq
  | .text left, .text right => left == right
  | .array left, .array right => equalItems left right
  | .object left, .object right => left.length == right.length && equalMembers left right
  | _, _ => false

/-- Whether two lists hold equal values in the same order. -/
def equalItems : List Json → List Json → Bool
  | [], [] => true
  | left :: lefts, right :: rights => equal left right && equalItems lefts rights
  | _, _ => false

/-- Whether each member on the left has an equal value on the right. -/
def equalMembers : List (String × Json) → List (String × Json) → Bool
  | [], _ => true
  | (key, value) :: rest, right =>
    (match right.lookup key with
      | some other => equal value other
      | none => false) && equalMembers rest right

end

/-- Whether no two of the items are equal. -/
def allDistinct : List Json → Bool
  | [] => true
  | item :: rest => !rest.any (equal item) && allDistinct rest

end ApiSurface.Json
