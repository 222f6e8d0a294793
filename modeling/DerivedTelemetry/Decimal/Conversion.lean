import DerivedTelemetry.Binary64.Shortest

/-!
# Decimals and doubles

The way to a double and back is fixed digit for digit, because its rounding is
seen in results.  Towards a double, a number with a fraction is put together
from its two sides and then rounded once more to its own scale.  Back, the power
of two is turned into a power of ten step by step: factors of five are multiplied
in while the mantissa has room, and the mantissa is halved where it has none.
What is left of the binary digits is then rounded away down to the precision of
a double.
-/

namespace DerivedTelemetry.Decimal

open Binary64

/-- The double that stands for a number in transcendental functions. -/
def toDouble (number : Decimal) : Float :=
  let unit := tenTo number.scale
  let whole := nearest (number.mantissa / unit)
  let rest := number.mantissa % unit
  let magnitude :=
    if rest = 0 then whole
    else
      let power := powRepeated 1 10 number.scale
      ((whole + nearest rest / nearest unit) * power).round / power
  if number.negative && !(number.isZero && number.scale == 0) then -magnitude else magnitude

/-- A mantissa over a power of ten that is still being worked out. -/
structure Rescaled where
  mantissa : Nat
  exponent : Int

/-- Replaces `2 ^ -count` by `5 ^ count * 10 ^ -count`. -/
def fivesIn (r : Rescaled) : (count : Nat) → Rescaled
  | 0 => r
  | count + 1 =>
    if r.mantissa % 2 = 0 then fivesIn ⟨r.mantissa / 2, r.exponent + 1⟩ count
    else if r.mantissa * 5 < capacity then fivesIn ⟨r.mantissa * 5, r.exponent⟩ count
    else fivesIn ⟨r.mantissa / 2, r.exponent + 1⟩ count

/-- Replaces `2 ^ count` by `10 ^ count / 5 ^ count`, or gives up when there are
more tens than can still be multiplied in. -/
def fivesOut? (r : Rescaled) : (count : Nat) → Option Rescaled
  | 0 => some r
  | count + 1 =>
    if r.mantissa < twoTo 95 then fivesOut? ⟨r.mantissa * 2, r.exponent - 1⟩ count
    else if (count + 1 : Int) < r.exponent * 2 then none
    else fivesOut? ⟨r.mantissa / 5, r.exponent⟩ count

/-- Multiplies `count` tens into the mantissa, if they fit. -/
def tensIn? (mantissa : Nat) : (count : Nat) → Option Nat
  | 0 => some mantissa
  | count + 1 =>
    if mantissa * 10 < capacity then tensIn? (mantissa * 10) count else none

/-- One digit rounded away, half up. -/
def dropDigit (mantissa : Nat) : Nat :=
  mantissa / 10 + if 5 ≤ mantissa % 10 then 1 else 0

/-- Rounds `count` digits away one by one.  A mantissa that has vanished ends
it: the answer is then none, for a plain zero. -/
def dropExcess? (mantissa : Nat) : (count : Nat) → Option Nat
  | 0 => some mantissa
  | count + 1 =>
    if mantissa / 10 = 0 then none else dropExcess? (dropDigit mantissa) count

/-- Rounds digits away one by one until the mantissa is below that of a
double. -/
def dropBinaryDigits (mantissa : Nat) : (scale : Nat) → Nat × Nat
  | 0 => (mantissa, 0)
  | scale + 1 =>
    if twoTo 52 ≤ mantissa then dropBinaryDigits (dropDigit mantissa) scale
    else (mantissa, scale + 1)

/-- The number with a mantissa and a power of ten, brought into bounds. -/
def settle? (negative : Bool) (r : Rescaled) : Option Decimal :=
  if 0 ≤ r.exponent then
    (tensIn? r.mantissa r.exponent.toNat).map fun mantissa => ⟨negative, mantissa, 0⟩
  else
    let scale := (-r.exponent).toNat
    match dropExcess? r.mantissa (scale - maxScale) with
    | none => some ⟨negative, 0, 0⟩
    | some mantissa =>
      let (kept, places) := dropBinaryDigits mantissa (min scale maxScale)
      some (stripZeros negative kept places)

/-- The number that a finite double becomes, or none when it is too large. -/
def ofParts? (parts : Parts) : Option Decimal :=
  if parts.significand = 0 then some ⟨parts.negative, 0, 0⟩
  else
    let start : Rescaled := ⟨parts.significand, parts.exponent⟩
    if parts.exponent ≤ 0 then
      settle? parts.negative (fivesIn start (-parts.exponent).toNat)
    else
      (fivesOut? start parts.exponent.toNat).bind (settle? parts.negative)

end DerivedTelemetry.Decimal
