import DerivedTelemetry.Decimal.Basic

/-!
# Decimal literals

A literal is read digit by digit from the left.  Digits before the point must
all fit below the capacity.  Digits after the point are taken as long as the
scale and the capacity allow; the first digit that is left over decides whether
the last one taken is raised by one.  A literal is never negative: signs belong
to whoever reads them.
-/

namespace DerivedTelemetry.Decimal

/-- The two ways in which a well-shaped literal can be too large. -/
inductive LiteralError where
  | tooManyDigits
  | mantissaAfterRounding
  deriving DecidableEq

def LiteralError.message : LiteralError → String
  | .tooManyDigits => "Invalid decimal: overflow from too many digits"
  | .mantissaAfterRounding => "Invalid decimal: overflow from mantissa after rounding"

/-- The value of a decimal digit. -/
def digitValue (c : Char) : Nat := c.toNat - '0'.toNat

/-- What has been read of a literal: the mantissa, its scale and the digits that
did not fit. -/
structure Reading where
  mantissa : Nat
  scale : Nat
  unread : List Char

/-- Appends the digits before the point to a mantissa. -/
def readWhole (mantissa : Nat) : List Char → Except LiteralError Nat
  | [] => .ok mantissa
  | c :: rest =>
    let next := mantissa * 10 + digitValue c
    if next < capacity then readWhole next rest else .error .tooManyDigits

/-- Appends the digits after the point to a mantissa, as many as fit. -/
def readFraction (mantissa scale : Nat) : List Char → Reading
  | [] => ⟨mantissa, scale, []⟩
  | c :: rest =>
    let next := mantissa * 10 + digitValue c
    if scale < maxScale ∧ next < capacity then readFraction next (scale + 1) rest
    else ⟨mantissa, scale, c :: rest⟩

/-- Rounds by the first unread digit, half up. -/
def Reading.rounded (reading : Reading) : Except LiteralError Decimal :=
  let raise := match reading.unread with
    | [] => 0
    | c :: _ => if 5 ≤ digitValue c then 1 else 0
  let mantissa := reading.mantissa + raise
  if mantissa < capacity then .ok ⟨false, mantissa, reading.scale⟩
  else if reading.scale = 0 then .error .mantissaAfterRounding
  else .ok ⟨false, (mantissa + 4) / 10, reading.scale - 1⟩

/-- The number whose digits before and after the point are given. -/
def ofDigits (whole fraction : List Char) : Except LiteralError Decimal := do
  let mantissa ← readWhole 0 whole
  (readFraction mantissa 0 fraction).rounded

end DerivedTelemetry.Decimal
