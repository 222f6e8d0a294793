import DerivedTelemetry.Decimal.Checked

/-!
# Mathematical functions

Functions of evaluated arguments.  Rounding, comparison and whole powers are
computed on decimals; the transcendental functions go through doubles.  Each
function checks its own argument count, so that it can also be registered under
an arity that admits others.
-/

namespace DerivedTelemetry.Math

/-- A function of the evaluated arguments of a call. -/
abbrev NumericFunction := List Decimal → Except Fault Decimal

/-- A function of one argument. -/
def unary (name : String) (f : Decimal → Except Fault Decimal) : NumericFunction
  | [x] => f x
  | arguments => .error (.argumentCount name (.exact 1) arguments.length)

/-- A function of two arguments. -/
def binary (name : String) (f : Decimal → Decimal → Except Fault Decimal) :
    NumericFunction
  | [x, y] => f x y
  | arguments => .error (.argumentCount name (.exact 2) arguments.length)

def sqrt : NumericFunction := unary "sqrt" (Checked.sqrt "sqrt")

def abs : NumericFunction := unary "abs" fun x => .ok x.abs

def exp : NumericFunction := unary "exp" (Checked.throughDouble "exp" Float.exp)

def sin : NumericFunction := unary "sin" (Checked.throughDouble "sin" Float.sin)

def cos : NumericFunction := unary "cos" (Checked.throughDouble "cos" Float.cos)

def tan : NumericFunction := unary "tan" (Checked.throughDouble "tan" Float.tan)

def atan : NumericFunction := unary "atan" (Checked.throughDouble "atan" Float.atan)

/-- A logarithm, of positive numbers only. -/
def logarithm (name : String) (f : Float → Float) : NumericFunction :=
  unary name fun x =>
    if x ≤ Decimal.zero then .error (.arithmetic (.notPositive name x))
    else Checked.throughDouble name f x

/-- The natural logarithm. -/
def log : NumericFunction := logarithm "log" Float.log

def log10 : NumericFunction := logarithm "log10" Float.log10

/-- An inverse function of an angle, between minus one and one only. -/
def inverseAngle (name : String) (f : Float → Float) : NumericFunction :=
  unary name fun x =>
    if x < -Decimal.one ∨ Decimal.one < x then .error (.arithmetic (.outsideUnit name x))
    else Checked.throughDouble name f x

def asin : NumericFunction := inverseAngle "asin" Float.asin

def acos : NumericFunction := inverseAngle "acos" Float.acos

def round : NumericFunction := unary "round" fun x => .ok x.round

def floor : NumericFunction := unary "floor" fun x => .ok x.floor

def ceil : NumericFunction := unary "ceil" fun x => .ok x.ceil

/-- The least argument, the first of several equal ones. -/
def min : NumericFunction
  | [] => .error (.argumentCount "min" (.atLeast 1) 0)
  | x :: rest => .ok (rest.foldl Decimal.lesser x)

/-- The greatest argument, the last of several equal ones. -/
def max : NumericFunction
  | [] => .error (.argumentCount "max" (.atLeast 1) 0)
  | x :: rest => .ok (rest.foldl Decimal.greater x)

/-- Whole exponents up to this size are computed on decimals. -/
def greatestWholeExponent : Nat := 1024

/-- One multiplication on the way to a power. -/
def powerStep (a b : Decimal) : Except Fault Decimal :=
  Checked.orFault (a.mul? b) .powerOutOfRange

/-- `result * factor ^ exponent` by squaring: the bits of the exponent are taken
from the low end, and the factor is squared only while bits are left. -/
def powerLoop (result factor : Decimal) (exponent : Nat) : Except Fault Decimal := do
  if exponent = 0 then return result
  let result ← if exponent % 2 = 1 then powerStep result factor else .ok result
  if exponent / 2 = 0 then return result
  let factor ← powerStep factor factor
  powerLoop result factor (exponent / 2)
termination_by exponent

/-- The power of a base to a whole exponent.  A negative exponent inverts the
power, and then the base must not be zero. -/
def wholePower (base : Decimal) (exponent : Int) : Except Fault Decimal :=
  if exponent < 0 ∧ base.isZero then .error (.arithmetic .inverseOfZero)
  else do
    let power ← powerLoop Decimal.one base exponent.natAbs
    if exponent < 0 then
      Checked.orFault (if power.isZero then none else Decimal.one.div? power)
        (.inverseOutOfRange base exponent)
    else return power

/-- A whole number as a word with a sign, if it fits into one. -/
def word? (n : Int) : Option Int64 :=
  if Int64.minValue.toInt ≤ n ∧ n ≤ Int64.maxValue.toInt then some (Int64.ofInt n) else none

/-- The exponent as a whole number, if it is one whose absolute value is within the bound.
The absolute value is taken among words.  The least word has none there: it is left as
it is, and being negative it passes. -/
def wholeExponent? (exponent : Decimal) : Option Int :=
  if exponent.hasFraction then none
  else
    ((word? exponent.truncate.signed).filter fun n =>
      n.abs ≤ Int64.ofNat greatestWholeExponent).map Int64.toInt

/-- The power of a base to any exponent.  A negative base needs an exponent that passes for
a whole one within the bound. -/
def power (base exponent : Decimal) : Except Fault Decimal :=
  match wholeExponent? exponent with
  | some n => wholePower base n
  | none =>
    if base.isBelowZero then .error (.arithmetic (.negativeBase base exponent))
    else Checked.ofDouble "pow" (Float.pow base.toDouble exponent.toDouble)

def pow : NumericFunction := binary "pow" power

end DerivedTelemetry.Math
