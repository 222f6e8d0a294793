import DerivedTelemetry.Decimal.Basic

/-!
# Sums and products

Each operation has an exact result, which is a fraction with a power of ten
below it, and that result is then fitted: fraction digits are rounded away until
the mantissa is below the capacity and the scale within its bound.  Ties go to the
even neighbour.  An operation has no result only when the whole part alone does not
fit.

Zero operands are special.  A sum with a zero is the other operand as it stands,
and a product with a zero is the plain `0`.
-/

namespace DerivedTelemetry.Decimal

/-- The whole number nearest to `a / b`, the even one of two. -/
def divHalfEven (a b : Nat) : Nat :=
  let quotient := a / b
  let twice := 2 * (a % b)
  if b < twice ∨ (twice = b ∧ quotient % 2 = 1) then quotient + 1 else quotient

/-- The least number of digits whose rounding away brings a mantissa below the
capacity and its scale within the bound.  There are only `scale` digits to give. -/
def digitsToDrop? (mantissa scale : Nat) : Option Nat :=
  let least := scale - maxScale
  (List.range' least (scale + 1 - least)).find? fun k =>
    decide (divHalfEven mantissa (tenTo k) < capacity)

/-- The number `± mantissa / 10 ^ scale` with as few digits rounded away as it takes
to represent it, or none when its whole part is too large. -/
def fit? (negative : Bool) (mantissa scale : Nat) : Option Decimal :=
  (digitsToDrop? mantissa scale).map fun k =>
    ⟨negative, divHalfEven mantissa (tenTo k), scale - k⟩

/-- The sum of two nonzero numbers, both written over the greater of their scales.
A sum that is zero is positive. -/
def addAligned? (a b : Decimal) : Option Decimal :=
  let scale := max a.scale b.scale
  let total := a.signed * tenTo (scale - a.scale) + b.signed * tenTo (scale - b.scale)
  fit? (decide (total < 0)) total.natAbs scale

/-- The sum, or none when it is too large.  The rule is that for scales up to the greatest.  A
padded quotient may be past it, and then the same rule is applied, which is not documented for
such numbers. -/
def add? (a b : Decimal) : Option Decimal :=
  if a.isZero then some b
  else if b.isZero then some a
  else addAligned? a b

/-- The difference, or none when it is too large.  Taking a zero away changes
nothing, not even the sign of another zero. -/
def sub? (a b : Decimal) : Option Decimal :=
  if b.isZero then some (if a.isZero then b else a) else add? a (-b)

/-- Mantissas below this bound are multiplied in one machine word. -/
def wordCapacity : Nat := twoTo 32

/-- Beyond this scale a product of two words is taken to be zero. -/
def wordProductScale : Nat := 47

/-- The product, or none when it is too large.  A product of two words that
vanishes loses its sign; a larger one keeps it. -/
def mul? (a b : Decimal) : Option Decimal :=
  if a.isZero || b.isZero then some zero
  else
    let negative := a.negative != b.negative
    let scale := a.scale + b.scale
    if a.mantissa < wordCapacity ∧ b.mantissa < wordCapacity then
      if wordProductScale < scale then some zero
      else (fit? negative (a.mantissa * b.mantissa) scale).map fun product =>
        if product.isZero then product.abs else product
    else fit? negative (a.mantissa * b.mantissa) scale

/-- Removes up to `count` trailing zeros from a mantissa and its scale. -/
def stripZeros (negative : Bool) (mantissa : Nat) : (scale : Nat) → Decimal
  | 0 => ⟨negative, mantissa, 0⟩
  | scale + 1 =>
    if mantissa % 10 = 0 then stripZeros negative (mantissa / 10) scale
    else ⟨negative, mantissa, scale + 1⟩

/-- The number without trailing zeros after the point. -/
def normalized (number : Decimal) : Decimal :=
  stripZeros number.negative number.mantissa number.scale

end DerivedTelemetry.Decimal
