import DerivedTelemetry.Text.Blank
import DerivedTelemetry.Time.Timestamp

/-!
# Trailing time windows

A statistical function looks at the samples of one of six windows.  The window of
a reference time ends at that time, both ends belonging to it, and begins a fixed
number of minutes earlier.
-/

namespace DerivedTelemetry

inductive Window where
  | fiveMinutes
  | fifteenMinutes
  | oneHour
  | twentyFourHours
  | sevenDays
  | thirtyDays
  deriving DecidableEq, Inhabited

namespace Window

/-- Every window, the shortest first. -/
def all : List Window :=
  [.fiveMinutes, .fifteenMinutes, .oneHour, .twentyFourHours, .sevenDays, .thirtyDays]

/-- The code that names the window in expressions. -/
def code : Window → String
  | .fiveMinutes => "5m"
  | .fifteenMinutes => "15m"
  | .oneHour => "1h"
  | .twentyFourHours => "24h"
  | .sevenDays => "7d"
  | .thirtyDays => "30d"

def minutes : Window → Nat
  | .fiveMinutes => 5
  | .fifteenMinutes => 15
  | .oneHour => 60
  | .twentyFourHours => 24 * 60
  | .sevenDays => 7 * 24 * 60
  | .thirtyDays => 30 * 24 * 60

def seconds (window : Window) : Nat := window.minutes * 60

/-- The position of the window among all of them. -/
def index (window : Window) : Nat := all.idxOf window

/-- The window that a code names: blanks around it and the case of its letter do
not matter. -/
def ofCode? (code : String) : Option Window :=
  let normal := (Text.trim code.toList).map Char.toLower
  all.find? fun window => window.code.toList == normal

/-- A code is one of the six, with its letter in either case, and may have blanks around it. -/
def IsCode (code : String) : Prop :=
  ∃ before name after : List Char, code.toList = before ++ name ++ after ∧
    (∀ c ∈ before ++ after, Text.isBlank c = true) ∧
    String.ofList (name.map Char.toLower) ∈ ["5m", "15m", "1h", "24h", "7d", "30d"]

/-- Where the window that ends at a reference time begins. -/
def start (window : Window) (reference : Timestamp) : Timestamp :=
  reference.minutesBefore window.minutes

end Window

end DerivedTelemetry
