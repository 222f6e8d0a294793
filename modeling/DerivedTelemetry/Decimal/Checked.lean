import DerivedTelemetry.Decimal.Conversion
import DerivedTelemetry.Decimal.Quotient
import DerivedTelemetry.Decimal.Rounding
import DerivedTelemetry.Fault

/-!
# Checked arithmetic

The arithmetic of expressions and statistics.  Each operation answers a number or
the fault that stopped it; a division by any zero is a fault, and its quotient is
rounded to a number of significant digits.
-/

namespace DerivedTelemetry.Checked

/-- A result, or an arithmetic fault when there is none. -/
def orFault (result : Option Decimal) (cause : ArithmeticFault) : Except Fault Decimal :=
  match result with
  | some value => .ok value
  | none => .error (.arithmetic cause)

def add (a b : Decimal) : Except Fault Decimal :=
  orFault (a.add? b) (.overflow .add a b)

def sub (a b : Decimal) : Except Fault Decimal :=
  orFault (a.sub? b) (.overflow .sub a b)

def mul (a b : Decimal) : Except Fault Decimal :=
  orFault (a.mul? b) (.overflow .mul a b)

/-- The quotient, rounded to `precision` significant digits. -/
def div (a b : Decimal) (precision : Nat) : Except Fault Decimal :=
  if b.isZero then .error (.arithmetic .divisionByZero)
  else (orFault (a.div? b) (.overflow .div a b)).map (·.roundSignificant precision)

/-- The sum of numbers, added up from the left. -/
def sum (numbers : List Decimal) : Except Fault Decimal :=
  numbers.foldlM add Decimal.zero

/-- The number that a double becomes.  The function that computed it is named in
the fault. -/
def ofDouble (function : String) (x : Float) : Except Fault Decimal :=
  match Binary64.parts? x with
  | none => .error (.arithmetic (.notFinite function))
  | some parts => orFault (Decimal.ofParts? parts) (.doubleOutOfRange function parts)

/-- A function on doubles, applied to a number. -/
def throughDouble (function : String) (f : Float → Float) (x : Decimal) :
    Except Fault Decimal :=
  ofDouble function (f x.toDouble)

def sqrt (function : String) (x : Decimal) : Except Fault Decimal :=
  if x.isBelowZero then .error (.arithmetic (.negative function x))
  else throughDouble function Float.sqrt x

end DerivedTelemetry.Checked
