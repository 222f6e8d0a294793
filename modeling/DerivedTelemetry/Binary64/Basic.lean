import DerivedTelemetry.Decimal.Arithmetic

/-!
# Double-precision numbers

Transcendental functions are computed in double precision.  This module reads a
finite double as an integer times a power of two, and finds the double nearest
to a fraction; both work in exact integer arithmetic.
-/

namespace DerivedTelemetry.Binary64

/-- The least significand of a normal double. -/
def hiddenBit : Nat := twoTo 52

/-- The finite double `± significand * 2 ^ exponent`. -/
structure Parts where
  negative : Bool
  significand : Nat
  exponent : Int
  deriving DecidableEq

/-- The parts of a double, or none for an infinity or a NaN.  A subnormal number
has the exponent of the least normal one, without the hidden bit. -/
def parts? (x : Float) : Option Parts :=
  let bits : Nat := x.toBits.toNat
  let negative := decide (twoTo 63 ≤ bits)
  let biased : Nat := bits / twoTo 52 % twoTo 11
  let fraction : Nat := bits % twoTo 52
  if biased = 2047 then none
  else if biased = 0 then some ⟨negative, fraction, -1074⟩
  else some ⟨negative, hiddenBit + fraction, Int.ofNat biased - 1075⟩

/-- The double with given parts.  A significand with one bit more than fits carries
into the exponent, which stands just above it. -/
def Parts.toFloat (parts : Parts) : Float :=
  let sign := if parts.negative then twoTo 63 else 0
  let magnitude :=
    if parts.significand < hiddenBit then parts.significand
    else (parts.exponent + 1075).toNat * twoTo 52 + (parts.significand - hiddenBit)
  Float.ofBits (UInt64.ofNat (sign + magnitude))

/-- The exponent at which a positive fraction has a significand of 53 bits, or that
of the subnormal numbers where there is none. -/
def exponentOf (numerator denominator : Nat) : Int :=
  let a := numerator.log2
  let b := denominator.log2
  let low := numerator * twoTo b < denominator * twoTo a
  max (-1074) ((a : Int) - b - if low then 53 else 52)

/-- The double nearest to a positive fraction, of two the one with the even
significand.  There is none beyond the greatest double. -/
def ofRatio? (negative : Bool) (numerator denominator : Nat) : Option Parts :=
  if numerator = 0 then some ⟨negative, 0, -1074⟩
  else
    let exponent := exponentOf numerator denominator
    let significand :=
      Decimal.divHalfEven (numerator * twoTo (-exponent).toNat)
        (denominator * twoTo exponent.toNat)
    let parts : Parts :=
      if significand = 2 * hiddenBit then ⟨negative, hiddenBit, exponent + 1⟩
      else ⟨negative, significand, exponent⟩
    if parts.exponent ≤ 971 then some parts else none

/-- The magnitude as a fraction, over `Parts.denominator`. -/
def Parts.numerator (x : Parts) : Nat := x.significand * twoTo x.exponent.toNat

def Parts.denominator (x : Parts) : Nat := twoTo (-x.exponent).toNat

/-- The double nearest to a product. -/
def Parts.mul? (x y : Parts) : Option Parts :=
  ofRatio? (x.negative != y.negative) (x.numerator * y.numerator)
    (x.denominator * y.denominator)

/-- The double nearest to a quotient, the divisor not being zero. -/
def Parts.div? (x y : Parts) : Option Parts :=
  ofRatio? (x.negative != y.negative) (x.numerator * y.denominator)
    (x.denominator * y.numerator)

/-- The double nearest to a power of ten. -/
def tenTo? (n : Nat) : Option Parts := ofRatio? false (tenTo n) 1

/-- The double nearest to a whole number. -/
def nearest (n : Nat) : Float := (ofRatio? false n 1).elim 0 Parts.toFloat

/-- A power by repeated squaring, from the low bit of the exponent upwards. -/
def powRepeated (result base : Float) (exponent : Nat) : Float :=
  if exponent = 0 then result
  else
    powRepeated (if exponent % 2 = 1 then result * base else result)
      (base * base) (exponent / 2)
termination_by exponent

end DerivedTelemetry.Binary64
