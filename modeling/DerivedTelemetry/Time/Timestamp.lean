/-!
# Points in time

A point in time is a second, counted from the first of January 1970, UTC, and the
nanoseconds since its beginning.  The count has no place for leap seconds.  A leap
second is therefore kept with the second before it, as a fraction that goes on past
one: it lies after that second and before the next.

The calendar that points are written in reaches from the year -262143 to the year
262142; both ends are points of their own here, because windows that would begin
before the first one begin at it.

Dates are counted in days through a year that begins in March.  A leap day is
then the last day of its year, and the months before it have lengths that follow
one linear rule.
-/

namespace DerivedTelemetry

structure Timestamp where
  second : Int
  /-- Nanoseconds, fewer than those of two seconds. -/
  fraction : Nat
  deriving DecidableEq, Inhabited

namespace Timestamp

/-- Earlier seconds come first, and within one second smaller fractions. -/
instance : LE Timestamp :=
  ⟨fun a b => a.second < b.second ∨ (a.second = b.second ∧ a.fraction ≤ b.fraction)⟩

instance : LT Timestamp :=
  ⟨fun a b => a.second < b.second ∨ (a.second = b.second ∧ a.fraction < b.fraction)⟩

instance (a b : Timestamp) : Decidable (a ≤ b) :=
  inferInstanceAs (Decidable (_ ∨ _))

instance (a b : Timestamp) : Decidable (a < b) :=
  inferInstanceAs (Decidable (_ ∨ _))

protected theorem le_trans {a b c : Timestamp} (hab : a ≤ b) (hbc : b ≤ c) : a ≤ c := by
  change _ ∨ _ ∧ _ at hab hbc
  change _ ∨ _ ∧ _
  omega

protected theorem le_total (a b : Timestamp) : a ≤ b ∨ b ≤ a := by
  change (_ ∨ _ ∧ _) ∨ (_ ∨ _ ∧ _)
  omega

protected theorem not_le {a b : Timestamp} : ¬a ≤ b ↔ b < a := by
  change ¬(_ ∨ _ ∧ _) ↔ (_ ∨ _ ∧ _)
  omega

/-- Nanoseconds in a second. -/
def perSecond : Nat := 1000000000

def secondsPerDay : Nat := 86400

/-- A date of the proleptic Gregorian calendar. -/
structure Date where
  year : Int
  month : Nat
  day : Nat
  deriving DecidableEq

/-- Days in a cycle of four hundred years. -/
def daysPerEra : Int := 146097

/-- Days from the first of March of the year 0 to the first of January 1970. -/
def epochDay : Int := 719468

def isLeapYear (year : Int) : Bool :=
  year % 4 = 0 && (year % 100 != 0 || year % 400 = 0)

def daysInMonth (year : Int) (month : Nat) : Nat :=
  if month = 2 then if isLeapYear year then 29 else 28
  else if month = 4 ∨ month = 6 ∨ month = 9 ∨ month = 11 then 30
  else 31

def Date.IsValid (date : Date) : Prop :=
  1 ≤ date.month ∧ date.month ≤ 12 ∧
    1 ≤ date.day ∧ date.day ≤ daysInMonth date.year date.month

instance (date : Date) : Decidable date.IsValid :=
  inferInstanceAs (Decidable (_ ∧ _ ∧ _ ∧ _))

/-- Days from the epoch to a date. -/
def Date.toDays (date : Date) : Int :=
  let year := if date.month ≤ 2 then date.year - 1 else date.year
  let monthFromMarch := (date.month + 9) % 12
  let era := year / 400
  let yearOfEra := year % 400
  let dayOfYear : Int := (153 * monthFromMarch + 2) / 5 + date.day - 1
  era * daysPerEra + yearOfEra * 365 + yearOfEra / 4 - yearOfEra / 100 + dayOfYear - epochDay

/-- The date that a number of days after the epoch falls on. -/
def Date.ofDays (days : Int) : Date :=
  let shifted := days + epochDay
  let era := shifted / daysPerEra
  let dayOfEra := shifted % daysPerEra
  let yearOfEra :=
    (dayOfEra - dayOfEra / 1460 + dayOfEra / 36524 - dayOfEra / 146096) / 365
  let dayOfYear := dayOfEra - (365 * yearOfEra + yearOfEra / 4 - yearOfEra / 100)
  let monthFromMarch := ((5 * dayOfYear + 2) / 153).toNat
  let day := (dayOfYear - (153 * monthFromMarch + 2) / 5 + 1).toNat
  let month := if monthFromMarch < 10 then monthFromMarch + 3 else monthFromMarch - 9
  let year := yearOfEra + era * 400
  ⟨if month ≤ 2 then year + 1 else year, month, day⟩

/-- The first point of the calendar. -/
def first : Timestamp := ⟨(Date.mk (-262143) 1 1).toDays * secondsPerDay, 0⟩

/-- The last point of the calendar. -/
def last : Timestamp :=
  ⟨(Date.mk 262143 1 1).toDays * secondsPerDay - 1, perSecond - 1⟩

/-- Nanoseconds since the epoch, by which distances are measured.  A leap second
counts as the second after it. -/
def elapsed (t : Timestamp) : Int := t.second * perSecond + t.fraction

def ofElapsed (nanoseconds : Int) : Timestamp :=
  ⟨nanoseconds / perSecond, (nanoseconds % perSecond).toNat⟩

/-- The point a number of minutes earlier, but never before the first one. -/
def minutesBefore (t : Timestamp) (minutes : Nat) : Timestamp :=
  let earlier := ofElapsed (t.elapsed - minutes * 60 * perSecond)
  if earlier < first then first else earlier

end Timestamp

end DerivedTelemetry
