import DerivedTelemetry.Power

/-!
# Decimal numbers

Readings, literals and results are decimals: a sign, a mantissa and the number
of digits after the point.  The scale is kept with the number, because it is
seen again when the number is written (`1.50` is not printed as `1.5`), and the
sign is kept apart from the mantissa, so that zero has a positive and a negative
form.  Comparison is by value: it sees neither of the two.

Arithmetic keeps mantissas below `2 ^ 96` and scales at most 28.  The type
itself admits more, since padding a short quotient with zeros can take the
scale past that bound; `WellFormed` is the predicate for numbers within it.
-/

namespace DerivedTelemetry

/-- The number `± mantissa / 10 ^ scale`. -/
structure Decimal where
  negative : Bool
  mantissa : Nat
  scale : Nat
  deriving DecidableEq, Inhabited

namespace Decimal

/-- Every mantissa of a representable number is below this bound. -/
def capacity : Nat := twoTo 96

/-- The greatest number of fraction digits of a representable number. -/
def maxScale : Nat := 28

structure WellFormed (number : Decimal) : Prop where
  mantissa_lt : number.mantissa < capacity
  scale_le : number.scale ≤ maxScale

instance (number : Decimal) : Decidable number.WellFormed :=
  decidable_of_iff (number.mantissa < capacity ∧ number.scale ≤ maxScale)
    ⟨fun h => ⟨h.1, h.2⟩, fun h => ⟨h.1, h.2⟩⟩

/-- The whole number `n`, written without a point. -/
def ofNat (n : Nat) : Decimal := ⟨false, n, 0⟩

def zero : Decimal := ofNat 0

def one : Decimal := ofNat 1

/-- Comparisons and logical functions answer 1 for true and 0 for false. -/
def ofBool (b : Bool) : Decimal := if b then one else zero

/-- The mantissa with the sign put back. -/
def signed (number : Decimal) : Int :=
  if number.negative then -(number.mantissa : Int) else number.mantissa

/-- Both forms of zero, at every scale. -/
def isZero (number : Decimal) : Bool := number.mantissa == 0

/-- Any number but zero counts as true. -/
def isTrue (number : Decimal) : Bool := !number.isZero

/-- Strictly below zero: a negative zero is not. -/
def isBelowZero (number : Decimal) : Bool := number.negative && !number.isZero

/-- Flips the sign, also of a zero. -/
def neg (number : Decimal) : Decimal := { number with negative := !number.negative }

/-- Clears the sign and keeps the scale. -/
def abs (number : Decimal) : Decimal := { number with negative := false }

instance : Neg Decimal := ⟨neg⟩

/-- The signed mantissas of two numbers over their common scale: multiplying
each by the power of ten that belongs to the other's scale. -/
def crossed (a b : Decimal) : Int × Int :=
  (a.signed * tenTo b.scale, b.signed * tenTo a.scale)

instance : LE Decimal := ⟨fun a b => (crossed a b).1 ≤ (crossed a b).2⟩

instance : LT Decimal := ⟨fun a b => (crossed a b).1 < (crossed a b).2⟩

instance (a b : Decimal) : Decidable (a ≤ b) :=
  inferInstanceAs (Decidable ((crossed a b).1 ≤ (crossed a b).2))

instance (a b : Decimal) : Decidable (a < b) :=
  inferInstanceAs (Decidable ((crossed a b).1 < (crossed a b).2))

/-- Equality by value: `1.0` and `1`, `-0` and `0` are the same. -/
def Same (a b : Decimal) : Prop := (crossed a b).1 = (crossed a b).2

instance (a b : Decimal) : Decidable (Same a b) :=
  inferInstanceAs (Decidable ((crossed a b).1 = (crossed a b).2))

/-- The lesser of two numbers by value, the first when they are equal. -/
def lesser (a b : Decimal) : Decimal := if b < a then b else a

/-- The greater of two numbers by value, the second when they are equal. -/
def greater (a b : Decimal) : Decimal := if b < a then a else b

end Decimal

end DerivedTelemetry
