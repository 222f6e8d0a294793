import DerivedTelemetry.Decimal.Reader
import DerivedTelemetry.Json.Writer
import DerivedTelemetry.Synthetic
import DerivedTelemetry.Time.Rfc3339

/-!
# Reading records from JSON

A record is an object with a member for each field, or an array of the fields in
order.  Unknown members are ignored, but an array must not be longer than the record.
A field that may be left out has a value of its own for that case.
-/

namespace DerivedTelemetry.Record

/-- What is given for the field at a position. -/
inductive Given where
  | absent
  | value (json : Json)

/-- How a record gives its fields. -/
abbrev Fields := Nat → String → Given

def ofOption : Option Json → Given
  | none => .absent
  | some json => .value json

/-- The fields of a record with a number of them. -/
def fields? (count : Nat) : Json → Option Fields
  | .object members => some fun _ name => ofOption (Json.member? members name)
  | .array items =>
    if items.length ≤ count then some fun position _ => ofOption items[position]? else none
  | _ => none

/-- A field that has to be given. -/
def required {α : Type} (read : Json → Option α) : Given → Option α
  | .absent => none
  | .value json => read json

/-- A field with a value for the case that it is not given. -/
def defaulted {α : Type} (default : α) (read : Json → Option α) : Given → Option α
  | .absent => some default
  | .value json => read json

def text? : Json → Option String
  | .text value => some value
  | _ => none

def bool? : Json → Option Bool
  | .bool value => some value
  | _ => none

/-- A whole number from zero up to a bound. -/
def natBelow? (bound : Nat) : Json → Option Nat
  | .whole value => if 0 ≤ value ∧ value < bound then some value.toNat else none
  | _ => none

/-- A value, or the word for none. -/
def optional? {α : Type} (read : Json → Option α) : Json → Option (Option α)
  | .null => some none
  | json => (read json).map some

/-- A decimal from a string, a whole number, or the shortest digits of a double. -/
def decimal? : Json → Option Decimal
  | .text value => Decimal.ofRecord? value
  | .whole value => some ⟨decide (value < 0), value.natAbs, 0⟩
  | .double value => Decimal.ofLenient? value.toChars
  | _ => none

def timestamp? (json : Json) : Option Timestamp :=
  (text? json).bind (Timestamp.read? .lenient)

/-- A category by its name, alone or as the only member of an object. -/
def category? : Json → Option Category
  | .text name => Category.all.find? fun category => category.toText == name
  | .object [(name, .null)] => Category.all.find? fun category => category.toText == name
  | _ => none

def syntheticVariable? (json : Json) : Option SyntheticVariable := do
  let field ← fields? 4 json
  let name ← required text? (field 0 "name")
  let expression ← required text? (field 1 "expression")
  let enabled ← defaulted true bool? (field 2 "enabled")
  let unit ← defaulted none (optional? text?) (field 3 "unit")
  return ⟨name, expression, enabled, unit⟩

def syntheticValue? (json : Json) : Option SyntheticValue := do
  let field ← fields? 4 json
  let name ← required text? (field 0 "name")
  let value ← required decimal? (field 1 "value")
  let timestamp ← required timestamp? (field 2 "timestamp")
  let unit ← defaulted none (optional? text?) (field 3 "unit")
  return ⟨name, value, timestamp, unit⟩

def sample? (json : Json) : Option Sample := do
  let field ← fields? 2 json
  let timestamp ← required timestamp? (field 0 "timestamp")
  let value ← required decimal? (field 1 "value")
  return ⟨timestamp, value⟩

def context? (json : Json) : Option Context := do
  let field ← fields? 2 json
  let device ← required text? (field 0 "device_id")
  let reference ← required timestamp? (field 1 "reference_timestamp")
  return ⟨device, reference⟩

def functionInfo? (json : Json) : Option FunctionInfo := do
  let field ← fields? 4 json
  let name ← required text? (field 0 "name")
  let category ← required category? (field 1 "category")
  let description ← required text? (field 2 "description")
  let arity ← required text? (field 3 "arity")
  return ⟨name, category, description, arity⟩

/-- Settings, which only an object can give; what it leaves out keeps its standard
value. -/
def settings? (json : Json) : Option Settings := do
  let members ← match json with
    | .object members => some members
    | _ => none
  let field (name : String) : Given := ofOption (Json.member? members name)
  let standard := Settings.standard
  let precision ← defaulted standard.precision (natBelow? (twoTo 32)) (field "precision")
  let maxDepth ← defaulted standard.maxDepth (natBelow? (twoTo 64)) (field "max_depth")
  let maxLength ←
    defaulted standard.maxLength (natBelow? (twoTo 64)) (field "max_expression_length")
  return ⟨precision, maxDepth, maxLength⟩

/-- Every item of an array. -/
def list? {α : Type} (read : Json → Option α) : Json → Option (List α)
  | .array items => items.mapM read
  | _ => none

end DerivedTelemetry.Record
