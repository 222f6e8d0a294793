import DerivedTelemetry.Fault

/-!
# What a run leaves behind

Besides its result a run has two effects that can be observed: the windows that it
asked the store for, and the events that it reported, each in order.
-/

namespace DerivedTelemetry

/-- One request to the store: the samples of a metric of a device between two times,
both included. -/
structure Request where
  device : String
  metric : String
  start : Timestamp
  stop : Timestamp
  deriving DecidableEq

inductive Event where
  | functionReplaced (name : String)
  | functionsRegistered (functions categories : Nat)
  | windowFetched (function device metric : String) (window : Window) (samples : Nat)
  | evaluationFailed (expression : String) (fault : Fault)
  | invalidVariable (name expression : String) (fault : Fault)
  | variableSkipped (device name : String) (fault : Fault)
  | variablesComputed (device : String) (computed configured : Nat)
  | computationBroken
  deriving DecidableEq

inductive Event.Level where
  | debug
  | info
  | warn
  | error
  deriving DecidableEq

def Event.Level.toText : Event.Level → String
  | .debug => "DEBUG"
  | .info => "INFO"
  | .warn => "WARN"
  | .error => "ERROR"

def Event.level : Event → Event.Level
  | .functionReplaced _ => .warn
  | .functionsRegistered _ _ => .info
  | .windowFetched _ _ _ _ _ => .debug
  | .evaluationFailed _ _ => .debug
  | .invalidVariable _ _ _ => .warn
  | .variableSkipped _ _ _ => .warn
  | .variablesComputed _ _ _ => .debug
  | .computationBroken => .error

def Event.message : Event → String
  | .functionReplaced _ => "Function registered twice, previous entry replaced"
  | .functionsRegistered _ _ => "Registered expression functions"
  | .windowFetched function _ _ _ _ => "Fetched window for " ++ function
  | .evaluationFailed _ _ => "Expression evaluation failed"
  | .invalidVariable _ _ _ => "Invalid synthetic variable expression"
  | .variableSkipped _ _ _ => "Skipping synthetic variable"
  | .variablesComputed _ _ _ => "Computed synthetic variables"
  | .computationBroken => "Synthetic variable task failed"

/-- A value that is reported together with an event. -/
inductive Event.Field where
  | text (value : String)
  | count (value : Nat)
  | flag (value : Bool)
  deriving DecidableEq

def Event.fields : Event → List (String × Event.Field)
  | .functionReplaced name => [("function", .text name)]
  | .functionsRegistered functions categories =>
    [("functions", .count functions), ("categories", .count categories)]
  | .windowFetched _ device metric window samples =>
    [("device", .text device), ("variable", .text metric), ("window", .text window.code),
     ("samples", .count samples)]
  | .evaluationFailed expression fault =>
    [("expression", .text expression), ("error", .text fault.message)]
  | .invalidVariable name expression fault =>
    [("variable", .text name), ("expression", .text expression),
     ("error", .text fault.message)]
  | .variableSkipped device name fault =>
    [("device", .text device), ("variable", .text name), ("error", .text fault.message),
     ("configuration", .flag fault.isConfiguration)]
  | .variablesComputed device computed configured =>
    [("device", .text device), ("computed", .count computed),
     ("configured", .count configured)]
  | .computationBroken => []

/-- The effects of a run, in order. -/
structure Trace where
  requests : List Request
  events : List Event
  deriving DecidableEq

namespace Trace

def empty : Trace := ⟨[], []⟩

/-- One run after another. -/
def append (a b : Trace) : Trace := ⟨a.requests ++ b.requests, a.events ++ b.events⟩

instance : Append Trace := ⟨append⟩

def event (e : Event) : Trace := ⟨[], [e]⟩

@[simp]
theorem requests_append (a b : Trace) : (a ++ b).requests = a.requests ++ b.requests := rfl

@[simp]
theorem requests_event (e : Event) : (event e).requests = [] := rfl

@[simp]
theorem events_event (e : Event) : (event e).events = [e] := rfl

@[simp]
theorem empty_append (a : Trace) : empty ++ a = a := rfl

@[simp]
theorem append_empty (a : Trace) : a ++ empty = a := by
  change (⟨a.requests ++ [], a.events ++ []⟩ : Trace) = a
  rw [List.append_nil, List.append_nil]

theorem append_assoc (a b c : Trace) : a ++ b ++ c = a ++ (b ++ c) := by
  change (⟨a.requests ++ b.requests ++ c.requests, a.events ++ b.events ++ c.events⟩ : Trace) =
    ⟨a.requests ++ (b.requests ++ c.requests), a.events ++ (b.events ++ c.events)⟩
  rw [List.append_assoc, List.append_assoc]

end Trace

end DerivedTelemetry
