import DerivedTelemetry.Decimal.Literal
import DerivedTelemetry.Decimal.Rounding

/-!
# Reading decimals from text

Outside expressions decimals come with a sign.  The plain form is the one in which
they are written, and it can name a negative zero.  Records are more lenient: they
take either sign, a point without digits on one of its sides, underscores after the
first digit, and scientific notation.  There a zero is positive, unless a power of
ten rounds a negative number down to it.
-/

namespace DerivedTelemetry.Decimal

/-- The plain form: an optional minus, digits, and optionally a point and more
digits. -/
def ofPlain? (text : String) : Option Decimal :=
  let (negative, chars) := match text.toList with
    | '-' :: rest => (true, rest)
    | rest => (false, rest)
  let whole := chars.takeWhile Char.isDigit
  let fraction? := match chars.dropWhile Char.isDigit with
    | [] => some []
    | '.' :: rest => if rest ≠ [] ∧ rest.all Char.isDigit then some rest else none
    | _ => none
  match whole, fraction? with
  | [], _ | _, none => none
  | _, some fraction => (ofDigits whole fraction).toOption.map fun value =>
    { value with negative := negative }

/-- Digits on one side of the point, with underscores in between. -/
def isDigitPart (c : Char) : Bool := c.isDigit || c == '_'

/-- The number without a sign, written with digits on at least one side of an
optional point.  An underscore needs a digit before it. -/
def ofLenientMagnitude? (chars : List Char) : Option Decimal :=
  let whole := chars.takeWhile isDigitPart
  let fraction? := match chars.dropWhile isDigitPart with
    | [] => some []
    | '.' :: rest => if rest.all isDigitPart then some rest else none
    | _ => none
  match fraction? with
  | none => none
  | some fraction =>
    match whole ++ fraction with
    | [] => none
    | c :: _ =>
      if c == '_' then none
      else (ofDigits (whole.filter Char.isDigit) (fraction.filter Char.isDigit)).toOption

/-- A number with an optional sign of either kind. -/
def ofLenient? (chars : List Char) : Option Decimal :=
  match chars with
  | '-' :: rest => (ofLenientMagnitude? rest).map fun value =>
    { value with negative := !value.isZero }
  | '+' :: rest => ofLenientMagnitude? rest
  | _ => ofLenientMagnitude? chars

/-- A whole number without a sign, except for an optional plus. -/
def exponentDigits? (chars : List Char) : Option Nat :=
  let digits := match chars with
    | '+' :: rest => rest
    | _ => chars
  if digits ≠ [] ∧ digits.all Char.isDigit then some (Nat.ofDigitChars 10 digits 0) else none

/-- A number times a power of ten.  Digits after the point make room first; what is
left of the power is multiplied in. -/
def scaleUp? (value : Decimal) (exponent : Nat) : Option Decimal :=
  if exponent ≤ value.scale then some { value with scale := value.scale - exponent }
  else if maxScale < exponent then none
  else (value.mul? (ofNat (tenTo exponent))).map normalized

/-- A number with at most `scale` digits after the point: the others are rounded
away, half up, and the sign stays even when nothing else does. -/
def cutTo (scale : Nat) (value : Decimal) : Decimal :=
  if value.scale ≤ scale then value
  else { value with
    mantissa := divHalfUp value.mantissa (tenTo (value.scale - scale))
    scale := scale }

/-- A number divided by a power of ten.  Digits that this would push past the
greatest scale are rounded away before. -/
def scaleDown? (value : Decimal) (exponent : Nat) : Option Decimal :=
  if maxScale < exponent then none
  else
    let kept := value.cutTo (maxScale - exponent)
    some { kept with scale := kept.scale + exponent }

/-- Scientific notation: a number, the letter `e`, and a power of ten. -/
def ofScientific? (chars : List Char) : Option Decimal :=
  let isMark (c : Char) : Bool := c == 'e' || c == 'E'
  match chars.dropWhile (fun c => !isMark c) with
  | [] => none
  | _ :: exponent =>
    (ofLenient? (chars.takeWhile fun c => !isMark c)).bind fun value =>
      match exponent with
      | '-' :: digits => (exponentDigits? digits).bind (scaleDown? value)
      | digits => (exponentDigits? digits).bind (scaleUp? value)

/-- The form that records accept. -/
def ofRecord? (text : String) : Option Decimal :=
  (ofLenient? text.toList).or (ofScientific? text.toList)

end DerivedTelemetry.Decimal
