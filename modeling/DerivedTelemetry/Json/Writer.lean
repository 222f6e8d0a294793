import DerivedTelemetry.Binary64.Shortest
import DerivedTelemetry.Json.Basic

/-!
# Writing JSON

Values are written without blanks.  In strings only the quote, the backslash and
the control characters are escaped.
-/

namespace DerivedTelemetry.Json

/-- A control character by its code, in four hexadecimal digits. -/
def escapedCode (c : Char) : List Char :=
  let digits := Nat.toDigits 16 c.toNat
  '\\' :: 'u' :: List.replicate (4 - digits.length) '0' ++ digits

def escaped (c : Char) : List Char :=
  if c = '"' then ['\\', '"']
  else if c = '\\' then ['\\', '\\']
  else if c = '\n' then ['\\', 'n']
  else if c = '\r' then ['\\', 'r']
  else if c = '\t' then ['\\', 't']
  else if c.toNat < 0x20 then escapedCode c
  else [c]

def quoted (text : String) : String :=
  String.ofList ('"' :: text.toList.flatMap escaped ++ ['"'])

mutual

def toText : Json → String
  | .null => "null"
  | .bool value => if value then "true" else "false"
  | .whole value => value.repr
  | .double value => String.ofList value.toChars
  | .text value => quoted value
  | .array items => "[" ++ itemsText items ++ "]"
  | .object members => "\x7b" ++ membersText members ++ "\x7d"

def itemsText : List Json → String
  | [] => ""
  | [item] => toText item
  | item :: rest => toText item ++ "," ++ itemsText rest

def membersText : List (String × Json) → String
  | [] => ""
  | [(name, value)] => quoted name ++ ":" ++ toText value
  | (name, value) :: rest => quoted name ++ ":" ++ toText value ++ "," ++ membersText rest

end

end DerivedTelemetry.Json
