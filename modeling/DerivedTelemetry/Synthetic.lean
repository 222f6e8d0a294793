import DerivedTelemetry.Engine

/-!
# Synthetic variables

A synthetic variable is a name for an expression over the readings of a device.  All
enabled variables are computed for one reading and one point in time.  A variable
whose expression fails is left out and reported; it does not affect the others, and
none of them sees the values of the others.
-/

namespace DerivedTelemetry

structure SyntheticVariable where
  name : String
  expression : String
  enabled : Bool
  unit : Option String
  deriving DecidableEq

namespace SyntheticVariable

def new (name expression : String) : SyntheticVariable := ⟨name, expression, true, none⟩

def withUnit (v : SyntheticVariable) (unit : String) : SyntheticVariable :=
  { v with unit := some unit }

def disabled (v : SyntheticVariable) : SyntheticVariable :=
  { v with enabled := false }

end SyntheticVariable

/-- A computed value with the unit of its variable. -/
structure SyntheticValue where
  name : String
  value : Decimal
  timestamp : Timestamp
  unit : Option String
  deriving DecidableEq

namespace Engine

/-- Checks the expression of a variable, and reports a fault under its name. -/
def validateVariable (engine : Engine) (name expression : String) :
    Except Failure ExpressionInfo × Trace :=
  match engine.validate expression with
  | .error (.fault cause) =>
    (.error (.fault cause), .event (.invalidVariable name expression cause))
  | result => (result, .empty)

/-- The values of variables in order, or none when the store broke off. -/
def values (engine : Engine) (store : Store) (context : Context)
    (readings : String → Option Decimal) :
    List SyntheticVariable → Option (List SyntheticValue) × Trace
  | [] => (some [], .empty)
  | v :: rest =>
    if v.enabled then
      match engine.evaluate store readings (some context) v.expression with
      | (.ok value, trace) =>
        let (others, after) := engine.values store context readings rest
        let computed := ⟨v.name, value, context.reference, v.unit⟩
        (others.map (computed :: ·), trace ++ after)
      | (.error (.fault cause), trace) =>
        let (others, after) := engine.values store context readings rest
        (others, trace ++ .event (.variableSkipped context.device v.name cause) ++ after)
      | (.error .broken, trace) => (none, trace)
    else engine.values store context readings rest

/-- Computes variables for one reading, and reports how many of them had a value. -/
def compute (engine : Engine) (store : Store) (context : Context)
    (readings : String → Option Decimal) (definitions : List SyntheticVariable) :
    Option (List SyntheticValue) × Trace :=
  match engine.values store context readings definitions with
  | (some computed, trace) =>
    let event := .variablesComputed context.device computed.length definitions.length
    (some computed, trace ++ .event event)
  | (none, trace) => (none, trace)

/-- The same as a task of its own: when the store breaks off, there are no values, and
that is reported. -/
def computeDetached (engine : Engine) (store : Store) (context : Context)
    (readings : String → Option Decimal) (definitions : List SyntheticVariable) :
    List SyntheticValue × Trace :=
  match engine.compute store context readings definitions with
  | (some computed, trace) => (computed, trace)
  | (none, trace) => ([], trace ++ .event .computationBroken)

end Engine

end DerivedTelemetry
