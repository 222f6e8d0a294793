import DerivedTelemetry.Json.Basic
import DerivedTelemetry.Text.Blank

/-!
# Settings in environment variables

A variable belongs to the engine when its name begins with a fixed mark, in capitals
or not.  The rest of the name, in small letters, is the key of a setting.  A point in
it would separate the keys of nested tables, and no setting is a table.
-/

namespace DerivedTelemetry.EnvironmentVariable

/-- What the names of the engine's variables begin with. -/
def mark : List Char := "synth_calc_".toList

def splitSign : List Char → Int × List Char
  | '-' :: digits => (-1, digits)
  | '+' :: digits => (1, digits)
  | digits => (1, digits)

/-- Digits, with a sign or without one, are a whole number; all else is text. -/
def value (text : String) : Json :=
  let (sign, digits) := splitSign (Text.trim text.toList)
  let number := sign * Nat.ofDigitChars 10 digits 0
  if digits ≠ [] ∧ digits.all Char.isDigit ∧ Json.IsWord number then .whole number
  else .text text

/-- The key and the value that a variable gives, if it belongs to the engine. -/
def member? (name text : String) : Option (String × Json) :=
  let letters := name.toList.map Char.toLower
  if mark.isPrefixOf letters then
    let keys := Text.trim (letters.drop mark.length)
    let first := String.ofList (keys.takeWhile (· != '.'))
    some (first, if keys.contains '.' then .object [] else value text)
  else none

def members (environment : List (String × String)) : List (String × Json) :=
  environment.filterMap fun (name, text) => member? name text

end DerivedTelemetry.EnvironmentVariable
