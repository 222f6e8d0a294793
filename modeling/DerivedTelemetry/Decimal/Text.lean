import DerivedTelemetry.Decimal.Basic

/-!
# Written decimals

A number is written with its sign, at least one digit before the point, and
exactly as many digits after the point as its scale says.  Trailing zeros are
therefore kept, and a scale of zero has no point at all.
-/

namespace DerivedTelemetry.Decimal

/-- The digits of `n` with zeros in front, up to `width` digits. -/
def padded (width n : Nat) : List Char :=
  let digits := Nat.toDigits 10 n
  List.replicate (width - digits.length) '0' ++ digits

/-- The characters of a mantissa with `scale` digits after the point. -/
def unsignedChars (mantissa scale : Nat) : List Char :=
  let whole := Nat.toDigits 10 (mantissa / tenTo scale)
  if scale = 0 then whole
  else whole ++ '.' :: padded scale (mantissa % tenTo scale)

def toChars (number : Decimal) : List Char :=
  let digits := unsignedChars number.mantissa number.scale
  if number.negative then '-' :: digits else digits

def toText (number : Decimal) : String := String.ofList number.toChars

end DerivedTelemetry.Decimal
