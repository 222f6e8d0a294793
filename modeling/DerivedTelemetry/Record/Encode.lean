import DerivedTelemetry.Json.Basic
import DerivedTelemetry.Synthetic
import DerivedTelemetry.Time.Rfc3339

/-!
# Writing records as JSON

Decimals and points in time are strings.  A unit that there is none of is left out.
-/

namespace DerivedTelemetry.Record

def natJson (n : Nat) : Json := .whole n

def decimalJson (value : Decimal) : Json := .text value.toText

def timestampJson (t : Timestamp) : Json := .text t.toText

def unitMembers : Option String → List (String × Json)
  | none => []
  | some unit => [("unit", .text unit)]

def syntheticVariableJson (v : SyntheticVariable) : Json :=
  .object ([("name", .text v.name), ("expression", .text v.expression),
    ("enabled", .bool v.enabled)] ++ unitMembers v.unit)

def syntheticValueJson (v : SyntheticValue) : Json :=
  .object ([("name", .text v.name), ("value", decimalJson v.value),
    ("timestamp", timestampJson v.timestamp)] ++ unitMembers v.unit)

def sampleJson (sample : Sample) : Json :=
  .object [("timestamp", timestampJson sample.timestamp), ("value", decimalJson sample.value)]

def contextJson (context : Context) : Json :=
  .object [("device_id", .text context.device),
    ("reference_timestamp", timestampJson context.reference)]

def categoryJson (category : Category) : Json := .text category.toText

def functionInfoMembers (info : FunctionInfo) : List (String × Json) :=
  [("name", .text info.name), ("category", categoryJson info.category),
    ("description", .text info.description), ("arity", .text info.arity)]

def functionInfoJson (info : FunctionInfo) : Json := .object (functionInfoMembers info)

def settingsJson (settings : Settings) : Json :=
  .object [("precision", natJson settings.precision), ("max_depth", natJson settings.maxDepth),
    ("max_expression_length", natJson settings.maxLength)]

/-- A registered function with the way it works. -/
def entryJson (entry : Entry) : Json :=
  .object (functionInfoMembers entry.info ++
    [("implementation", .text entry.implementation.toText)])

def eventFieldJson : Event.Field → Json
  | .text value => .text value
  | .count value => natJson value
  | .flag value => .bool value

def eventJson (event : Event) : Json :=
  .object [("level", .text event.level.toText), ("message", .text event.message),
    ("fields", .object (event.fields.map fun field => (field.1, eventFieldJson field.2)))]

/-- A request as a row. -/
def requestJson (request : Request) : Json :=
  .array [.text request.device, .text request.metric, timestampJson request.start,
    timestampJson request.stop]

end DerivedTelemetry.Record
