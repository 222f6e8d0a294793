import DerivedTelemetry.Decimal.Arithmetic

/-!
# Rounding

Two roundings appear in expressions: to a number of significant digits, which
every division of the engine ends with, and to a whole number, by the functions
`floor`, `ceil` and `round`.  Here a half goes away from zero.
-/

namespace DerivedTelemetry.Decimal

/-- The number of decimal digits of a positive number. -/
def digitCount (n : Nat) : Nat := (Nat.toDigits 10 n).length

/-- The whole number nearest to `a / b`, the greater one of two. -/
def divHalfUp (a b : Nat) : Nat :=
  if b ≤ 2 * (a % b) then a / b + 1 else a / b

/-- Rounds a number to `precision` significant digits, of which zero leave
nothing.  A number with fewer digits is padded with zeros up to that count, and
a carry into a new digit is kept (`99.95` has the three digits `100.0`).  Zeros
that come back in front of the point may exceed the capacity: then the number
stays as it is.  Padding is documented for numbers within the greatest scale, and may take them
past it; what becomes of a number that is past it already is not documented. -/
def roundSignificant (number : Decimal) (precision : Nat) : Decimal :=
  let digits := digitCount number.mantissa
  if number.isZero then number
  else if precision = 0 then zero
  else if digits ≤ precision then
    { number with
      mantissa := number.mantissa * tenTo (precision - digits)
      scale := number.scale + (precision - digits) }
  else
    let dropped := digits - precision
    let mantissa := divHalfUp number.mantissa (tenTo dropped)
    if dropped ≤ number.scale then
      { number with mantissa := mantissa, scale := number.scale - dropped }
    else
      let whole := mantissa * tenTo (dropped - number.scale)
      if whole < capacity then { number with mantissa := whole, scale := 0 } else number

/-- Drops the fraction and keeps the sign, also of a zero. -/
def truncate (number : Decimal) : Decimal :=
  { number with mantissa := number.mantissa / tenTo number.scale, scale := 0 }

/-- Whether dropping the fraction changes the value. -/
def hasFraction (number : Decimal) : Bool :=
  number.mantissa % tenTo number.scale != 0

/-- A whole number one further from zero. -/
def awayFromZero (number : Decimal) : Decimal :=
  { number with mantissa := number.mantissa + 1 }

/-- The greatest whole number that is not above. -/
def floor (number : Decimal) : Decimal :=
  if number.hasFraction && number.negative then number.truncate.awayFromZero
  else number.truncate

/-- The least whole number that is not below. -/
def ceil (number : Decimal) : Decimal :=
  if number.hasFraction && !number.negative then number.truncate.awayFromZero
  else number.truncate

/-- The nearest whole number, a half away from zero.  A zero keeps its sign; a
number that rounds to zero loses it. -/
def round (number : Decimal) : Decimal :=
  if number.isZero then number.truncate
  else
    let whole := divHalfUp number.mantissa (tenTo number.scale)
    ⟨number.negative && whole != 0, whole, 0⟩

end DerivedTelemetry.Decimal
