/-
This file writes a double with the fewest significant digits that read back as the same number, and
among those with the digits nearest to it. The reals that round to a double `m * 2 ^ q` form an
interval around it, whose ends belong to it exactly when `m` is even. On the grid of the multiples
of a power of ten, the grid point nearest to the number lies in the interval if any grid point does,
so the coarsest grid whose nearest point lies in the interval gives the digits. They are written with an
exponent where the point is far away from them, or without one however far it is.
-/

import ApiSurface.Decimal.Binary64

namespace ApiSurface.Decimal

/-- A positive decimal `digits * 10 ^ power`. -/
structure Digits where
  /-- The significant digits as one whole number. -/
  digits : Nat
  /-- The power of ten that scales them. -/
  power : Int
  deriving DecidableEq, Repr, Inhabited

namespace Binary64

/-- Whether `digits * 10 ^ power` rounds to the positive double: its distance from the double is at
most half the gap on that side, and less than it when the mantissa is odd. Below a power of two the
gap is half as wide. -/
def roundsTo (number : Binary64) (candidate : Digits) : Bool :=
  let quarter := number.exponent - 2
  let value := 4 * number.mantissa
  let below :=
    if number.mantissa == twoTo 52 && number.exponent != leastExponent then 1 else 2
  let twos (power : Int) : Nat := twoTo power.toNat
  let tens (power : Int) : Nat := tenTo power.toNat
  let scaled (size : Nat) : Nat := size * twos quarter * tens (-candidate.power)
  let point := candidate.digits * tens candidate.power * twos (-quarter)
  if number.mantissa % 2 == 0 then
    scaled (value - below) ≤ point && point ≤ scaled (value + 2)
  else
    scaled (value - below) < point && point < scaled (value + 2)

/-- The multiple of `10 ^ power` nearest to the double. -/
def nearestOnGrid (number : Binary64) (power : Int) : Digits :=
  let (numerator, denominator) := number.ratio
  let digits :=
    if 0 ≤ power then roundQuotient numerator (denominator * tenTo power.toNat)
    else roundQuotient (numerator * tenTo (-power).toNat) denominator
  ⟨digits, power⟩

/-- Tries grids from the coarse `10 ^ power` to ever finer ones, `steps` of them. -/
def searchGrids (number : Binary64) : Nat → Int → Digits
  | 0, power => nearestOnGrid number power
  | steps + 1, power =>
    let candidate := nearestOnGrid number power
    if candidate.digits != 0 && roundsTo number candidate then candidate
    else searchGrids number steps (power - 1)

/-- The power of ten of a decimal grid on which the double has at most one digit. -/
def coarsestGrid (number : Binary64) : Int :=
  let leading := number.exponent + (Nat.log2 number.mantissa : Int)
  leading * 30103 / 100000 + 2

/-- Moves zeros at the end of the digits into the power of ten. -/
def withoutTrailingZeros : Nat → Digits → Digits
  | 0, decimal => decimal
  | steps + 1, decimal =>
    if decimal.digits != 0 && decimal.digits % 10 == 0 then
      withoutTrailingZeros steps ⟨decimal.digits / 10, decimal.power + 1⟩
    else decimal

/-- The shortest digits of a double that is not zero. -/
def shortest (number : Binary64) : Digits :=
  withoutTrailingZeros 20 (searchGrids number 21 (coarsestGrid number))

end Binary64

/-! ### Text -/

/-- The decimal digits of a whole number. -/
def natText (number : Nat) : List Char :=
  Nat.toDigits 10 number

/-- The decimal digits of an integer, with a minus sign for a negative one. -/
def intText (number : Int) : List Char :=
  if number < 0 then '-' :: natText number.natAbs else natText number.natAbs

/-- Positional notation keeps at least one digit on both sides of the point and serves numbers from
`10 ^ -5` to below `10 ^ 16`; all others have an exponent, which always carries its sign. -/
def Digits.text (decimal : Digits) : List Char :=
  let digits := natText decimal.digits
  let point : Int := digits.length + decimal.power
  if 0 ≤ decimal.power && point ≤ 16 then
    digits ++ List.replicate decimal.power.toNat '0' ++ ['.', '0']
  else if 0 < point && point ≤ 16 then
    digits.take point.toNat ++ '.' :: digits.drop point.toNat
  else if -5 < point && point ≤ 0 then
    '0' :: '.' :: List.replicate (-point).toNat '0' ++ digits
  else
    let exponent := point - 1
    let sign := if exponent < 0 then '-' else '+'
    let lead := match digits with
      | [] => []
      | [only] => [only]
      | first :: rest => first :: '.' :: rest
    lead ++ 'e' :: sign :: natText exponent.natAbs

/-- The shortest text of a double, `0.0` and `-0.0` for the zeros. -/
def Binary64.text (number : Binary64) : List Char :=
  let size := if number.isZero then ['0', '.', '0'] else number.shortest.text
  if number.negative then '-' :: size else size

/-! ### Without an exponent -/

/-- The digits with zeros up to the point. -/
def Digits.positional (decimal : Digits) : List Char :=
  let digits := natText decimal.digits
  let point : Int := digits.length + decimal.power
  if 0 ≤ decimal.power then digits ++ List.replicate decimal.power.toNat '0'
  else if 0 < point then digits.take point.toNat ++ '.' :: digits.drop point.toNat
  else '0' :: '.' :: List.replicate (-point).toNat '0' ++ digits

/-- The text of a double without an exponent. -/
def Binary64.positionalText (number : Binary64) : String :=
  let size := if number.isZero then ['0'] else number.shortest.positional
  String.ofList (if number.negative then '-' :: size else size)

end ApiSurface.Decimal
