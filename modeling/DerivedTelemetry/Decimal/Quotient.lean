import DerivedTelemetry.Decimal.Arithmetic

/-!
# Quotients

A quotient of two decimals need not be a decimal.  It is worked out by long
division of the mantissas, nine digits at a time, until the division comes out even
or no further digit fits; what is left then is rounded, a half to the even
neighbour.

The blocks of nine can leave zeros behind the last digit that counts.  They are
taken back in groups of eight, four, two and one, and not always all of them:
`1 / 10` is `0.10`.  The value never depends on this, only the scale does.
-/

namespace DerivedTelemetry.Decimal

/-- Takes `count` zeros off the end, if there are that many after the point. -/
def dropZeros (count : Nat) (number : Decimal) : Decimal :=
  if count ≤ number.scale ∧ number.mantissa % tenTo count = 0 then
    { number with
      mantissa := number.mantissa / tenTo count
      scale := number.scale - count }
  else number

/-- Takes eight zeros off the end, but only of a mantissa whose low word is zero. -/
def dropZeroWord (number : Decimal) : Decimal :=
  if number.mantissa % wordCapacity = 0 then number.dropZeros 8 else number

/-- A quotient without most of its trailing zeros.  The scale has room for no more
than three groups of eight, and the smaller groups go once each. -/
def trimmed (number : Decimal) : Decimal :=
  (((number.dropZeroWord.dropZeroWord.dropZeroWord.dropZeros 4).dropZeros 2).dropZeros 1)

/-- The fraction `numerator / denominator`, rounded to `scale` digits after the
point. -/
def quotientAt (numerator denominator scale : Nat) : Nat :=
  divHalfEven (numerator * tenTo scale) denominator

/-- The greatest scale within the bound at which a fraction fits. -/
def quotientScale? (numerator denominator : Nat) : Option Nat :=
  (List.range (maxScale + 1)).reverse.find? fun scale =>
    decide (quotientAt numerator denominator scale < capacity)

/-- The digits that long division brings down in one step. -/
def blockLength : Nat := 9

/-- The scale after the first whole number of blocks with which the mantissas divide
evenly.  The blocks go on until their scale is past the bound; a scale that is still
in front of the point counts as zero. -/
def evenScale? (a b : Decimal) : Option Nat :=
  ((List.range ((maxScale + b.scale) / blockLength + 1)).find? fun blocks =>
    a.mantissa * tenTo (blockLength * blocks) % b.mantissa == 0).map fun blocks =>
      a.scale + blockLength * blocks - b.scale

/-- The quotient of two numbers, the divisor not being zero, or none when its
whole part is too large.  A mantissa that divides evenly keeps the difference of
the scales; any other quotient has the digits of the long division, less trailing
zeros.  A quotient that rounds to zero has no sign.  For numbers whose scale is past the
greatest, as that of a padded quotient may be, the rule is not documented; it is applied to
them as it stands. -/
def div? (a b : Decimal) : Option Decimal :=
  if a.isZero then some zero
  else
    let negative := a.negative != b.negative
    if a.mantissa % b.mantissa = 0 ∧ b.scale ≤ a.scale then
      some ⟨negative, a.mantissa / b.mantissa, a.scale - b.scale⟩
    else
      let numerator := a.mantissa * tenTo b.scale
      let denominator := b.mantissa * tenTo a.scale
      (quotientScale? numerator denominator).map fun greatest =>
        let scale := min greatest ((evenScale? a b).getD greatest)
        let mantissa := quotientAt numerator denominator scale
        trimmed ⟨negative && mantissa != 0, mantissa, scale⟩

end DerivedTelemetry.Decimal
