import DerivedTelemetry.Binary64.Basic

/-!
# Shortest decimal digits of a double

A double stands for every real number that rounds to it.  The digits written for
it are the fewest that name a number in that interval, and among those the
nearest to the double itself.  On the grid of all numbers with a given number of
digits only the two neighbours of the double need to be tried.

The interval, the double and the grid are compared as integers, after all of
them have been multiplied by one denominator.
-/

namespace DerivedTelemetry.Binary64

/-- A positive double and the bounds of its interval, as multiples of
`1 / denominator`.  The bounds belong to the interval when `closed` says so. -/
structure Interval where
  value : Nat
  below : Nat
  above : Nat
  denominator : Nat
  closed : Bool

/-- The interval around `significand * 2 ^ exponent`.  The gap below a power of
two is half as wide as the gap above it, unless it is the least normal number. -/
def Interval.of (significand : Nat) (exponent : Int) : Interval :=
  let factor := twoTo (exponent - 2).toNat
  let gap := if significand = hiddenBit ∧ -1074 < exponent then 1 else 2
  { value := 4 * significand * factor
    below := (4 * significand - gap) * factor
    above := (4 * significand + 2) * factor
    denominator := twoTo (2 - exponent).toNat
    closed := significand % 2 = 0 }

/-- The number `digits * 10 ^ power`. -/
structure Digits where
  digits : Nat
  power : Int

/-- Whether `digits * 10 ^ power`, scaled like the interval, lies inside it, and
how far from the double; distances on one grid share a scale. -/
def Interval.distance? (i : Interval) (candidate : Digits) : Option Nat :=
  let up := tenTo candidate.power.toNat
  let down := tenTo (-candidate.power).toNat
  let point := candidate.digits * up * i.denominator
  let inside :=
    if i.closed then decide (i.below * down ≤ point ∧ point ≤ i.above * down)
    else decide (i.below * down < point ∧ point < i.above * down)
  if inside then some (max point (i.value * down) - min point (i.value * down)) else none

/-- The nearer of the two neighbours on the grid of multiples of `10 ^ power`
that lie inside the interval. -/
def Interval.onGrid? (i : Interval) (power : Int) : Option Digits :=
  let up := tenTo power.toNat
  let down := tenTo (-power).toNat
  let lower : Digits := ⟨i.value * down / (up * i.denominator), power⟩
  let upper : Digits := ⟨lower.digits + 1, power⟩
  match i.distance? lower, i.distance? upper with
  | some l, some u =>
    if u < l ∨ (u = l ∧ lower.digits % 2 = 1) then some upper else some lower
  | some _, none => some lower
  | none, some _ => some upper
  | none, none => none

/-- The least `power` at or above `start` with `value < 10 ^ power`, looking at
no more than `fuel` of them. -/
def Interval.magnitude (i : Interval) (power : Int) : (fuel : Nat) → Int
  | 0 => power
  | fuel + 1 =>
    let up := tenTo power.toNat
    let down := tenTo (-power).toNat
    if i.value * down < up * i.denominator then power else i.magnitude (power + 1) fuel

/-- Seventeen digits name every double. -/
def mostDigits : Nat := 17

/-- A single digit that was raised to ten is a one on the grid above. -/
def Digits.carried (d : Digits) : Digits :=
  if d.digits = 10 then ⟨1, d.power + 1⟩ else d

/-- The shortest digits of a positive double. -/
def shortest (significand : Nat) (exponent : Int) : Digits :=
  let i := Interval.of significand exponent
  let top := i.magnitude (-324) 640
  (((List.range mostDigits).findSome? fun count =>
    i.onGrid? (top - (count + 1 : Nat))).getD ⟨0, 0⟩).carried

/-- Digits without an exponent: zeros are written out on either side. -/
def Digits.toChars (d : Digits) : List Char :=
  let written := Nat.toDigits 10 d.digits
  if 0 ≤ d.power then written ++ List.replicate d.power.toNat '0'
  else
    let places := (-d.power).toNat
    let padded := List.replicate (places + 1 - written.length) '0' ++ written
    let whole := padded.take (padded.length - places)
    whole ++ '.' :: padded.drop (padded.length - places)

/-- A finite double in its shortest digits, without an exponent and, for a whole
number, without a point. -/
def Parts.toChars (parts : Parts) : List Char :=
  let digits :=
    if parts.significand = 0 then ['0']
    else (shortest parts.significand parts.exponent).toChars
  if parts.negative then '-' :: digits else digits

end DerivedTelemetry.Binary64
