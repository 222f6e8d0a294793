import DerivedTelemetry.Decimal.Text
import DerivedTelemetry.Text.Blank
import DerivedTelemetry.Time.Timestamp

/-!
# Written points in time

Points in time are written in UTC with as few fraction digits out of 0, 3, 6 or
9 as are exact.  A year outside 0 to 9999 has a sign.

Two readers accept more than is written.  The strict one takes every form that
RFC 3339 allows, with any offset.  The lenient one, which records use, also takes
blanks around and between the parts, numbers without their leading zeros, signed
years and the zone name `UTC`.
-/

namespace DerivedTelemetry.Timestamp

open Decimal (padded)

/-- The fraction of a second with its point, in groups of three digits. -/
def fractionChars (nanoseconds : Nat) : List Char :=
  if nanoseconds = 0 then []
  else if nanoseconds % 1000000 = 0 then '.' :: padded 3 (nanoseconds / 1000000)
  else if nanoseconds % 1000 = 0 then '.' :: padded 6 (nanoseconds / 1000)
  else '.' :: padded 9 nanoseconds

def yearChars (year : Int) : List Char :=
  if 0 ≤ year ∧ year ≤ 9999 then padded 4 year.toNat
  else (if year < 0 then '-' else '+') :: padded 4 year.natAbs

def toChars (t : Timestamp) : List Char :=
  let date := Date.ofDays (t.second / secondsPerDay)
  let time := (t.second % secondsPerDay).toNat
  let second := time % 60 + t.fraction / perSecond
  yearChars date.year ++ '-' :: padded 2 date.month ++ '-' :: padded 2 date.day ++
    'T' :: padded 2 (time / 3600) ++ ':' :: padded 2 (time / 60 % 60) ++
    ':' :: padded 2 second ++ fractionChars (t.fraction % perSecond) ++ ['Z']

def toText (t : Timestamp) : String := String.ofList t.toChars

/-- The parts of a written point in time, before any of them is checked. -/
structure Fields where
  date : Date
  hour : Nat
  minute : Nat
  second : Nat
  nanoseconds : Nat
  /-- Seconds by which the local clock is ahead of UTC. -/
  offset : Int

/-- The point in time, if the parts name one within the calendar.  Any minute may
have a leap second, whose number is 60. -/
def ofFields? (fields : Fields) : Option Timestamp :=
  if fields.date.IsValid ∧ fields.hour < 24 ∧ fields.minute < 60 ∧ fields.second ≤ 60 ∧
      fields.offset.natAbs < secondsPerDay then
    let leap := fields.second / 60
    let wall := fields.date.toDays * secondsPerDay + fields.hour * 3600 +
      fields.minute * 60 + (fields.second - leap : Nat)
    let t : Timestamp := ⟨wall - fields.offset, fields.nanoseconds + leap * perSecond⟩
    if first ≤ t ∧ t ≤ last then some t else none
  else none

/-- How strictly the parts are read. -/
inductive Style where
  | strict
  | lenient
  deriving DecidableEq

/-- A reader consumes characters from the left. -/
abbrev Reader (α : Type) := StateT (List Char) Option α

def skipBlanks : Style → Reader Unit
  | .strict => pure ()
  | .lenient => modify (·.dropWhile Text.isBlank)

def literal (c : Char) : Reader Unit := fun
  | [] => none
  | d :: rest => if c = d then some ((), rest) else none

/-- Between one and `width` digits; exactly `width` when read strictly. -/
def number (style : Style) (width : Nat) : Reader Nat := fun chars =>
  let digits := (chars.take width).takeWhile Char.isDigit
  if digits = [] ∨ (style = .strict ∧ digits.length ≠ width) then none
  else some (Nat.ofDigitChars 10 digits 0, chars.drop digits.length)

/-- Any number of digits, at least one. -/
def digits : Reader (List Char) := fun chars =>
  let digits := chars.takeWhile Char.isDigit
  if digits = [] then none else some (digits, chars.dropWhile Char.isDigit)

/-- A year has four digits; a signed one, which only the lenient style knows, has
any number of them. -/
def year (style : Style) : Reader Int := do
  match style, ← get with
  | .lenient, '-' :: rest => do
    set rest
    return -(Nat.ofDigitChars 10 (← digits) 0 : Int)
  | .lenient, '+' :: rest => do
    set rest
    return (Nat.ofDigitChars 10 (← digits) 0 : Int)
  | _, _ => return ((← number style 4) : Int)

/-- An optional fraction; digits past the ninth are read and ignored. -/
def fractionPart : Reader Nat := do
  match ← get with
  | '.' :: rest => do
    set rest
    let ds ← digits
    let nine := ds.take 9
    return Nat.ofDigitChars 10 nine 0 * tenTo (9 - nine.length)
  | _ => return 0

/-- What may stand between the hours and the minutes of an offset. -/
def offsetSeparator : Style → Reader Unit
  | .strict => literal ':'
  | .lenient => modify (·.dropWhile fun c => c == ':' || Text.isBlank c)

/-- Hours and minutes of an offset, in seconds. -/
def offsetClock (style : Style) : Reader Int := do
  let hours ← number .strict 2
  offsetSeparator style
  let minutes ← number .strict 2
  if minutes < 60 then return ((hours * 3600 + minutes * 60 : Nat) : Int) else failure

/-- `Z`, or a signed distance from UTC. -/
def zone (style : Style) : Reader Int := do
  match ← get with
  | c :: rest =>
    if c = 'Z' ∨ c = 'z' then do set rest; return 0
    else if c = '+' then do set rest; offsetClock style
    else if c = '-' ∨ c = '−' then do set rest; return -(← offsetClock style)
    else failure
  | [] => failure

/-- The zone, or, leniently, the name of UTC in any case. -/
def namedZone (style : Style) : Reader Int := do
  let chars ← get
  if style = .lenient ∧ (chars.take 3).map Char.toUpper = ['U', 'T', 'C'] then do
    set (chars.drop 3)
    return 0
  else zone style

/-- The character between date and time. -/
def separator : Reader Unit := fun
  | [] => none
  | c :: rest => if c = 'T' ∨ c = 't' ∨ c = ' ' then some ((), rest) else none

/-- One of the numbers after the year, with the blanks before it. -/
def part (style : Style) : Reader Nat := do
  skipBlanks style
  number style 2

/-- A mark between two parts, with the blanks before it. -/
def mark (style : Style) (c : Char) : Reader Unit := do
  skipBlanks style
  literal c

def fields (style : Style) : Reader Fields := do
  skipBlanks style
  let year ← year style
  mark style '-'
  let month ← part style
  mark style '-'
  let day ← part style
  separator
  let hour ← part style
  mark style ':'
  let minute ← part style
  mark style ':'
  let second ← part style
  let nanoseconds ← fractionPart
  skipBlanks style
  let offset ← namedZone style
  skipBlanks style
  return ⟨⟨year, month, day⟩, hour, minute, second, nanoseconds, offset⟩

/-- The point in time that a whole text names. -/
def read? (style : Style) (text : String) : Option Timestamp :=
  match (fields style).run text.toList with
  | some (parts, []) => ofFields? parts
  | _ => none

end DerivedTelemetry.Timestamp
