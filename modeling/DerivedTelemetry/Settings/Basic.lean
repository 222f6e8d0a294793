import DerivedTelemetry.Fault

/-!
# Settings of an engine
-/

namespace DerivedTelemetry

/-- How precise divisions are, and what expressions are accepted at all. -/
structure Settings where
  /-- Significant digits that divisions keep. -/
  precision : Nat
  /-- How many factors may be open at once. -/
  maxDepth : Nat
  /-- How many bytes an expression may have. -/
  maxLength : Nat
  deriving DecidableEq

namespace Settings

def standard : Settings := ⟨10, 64, 4096⟩

/-- The greatest precision that a decimal can have. -/
def precisionLimit : Nat := 28

/-- The greatest nesting that can be allowed. -/
def depthLimit : Nat := 256

/-- The first setting out of range, if any. -/
def fault? (settings : Settings) : Option SettingFault :=
  if settings.precision < 1 ∨ precisionLimit < settings.precision then
    some (.precision settings.precision)
  else if settings.maxDepth < 1 ∨ depthLimit < settings.maxDepth then
    some (.nesting settings.maxDepth)
  else if settings.maxLength = 0 then some .length
  else none

/-- The settings themselves, if all of them are in range. -/
def checked (settings : Settings) : Except Fault Settings :=
  match settings.fault? with
  | some cause => .error (.setting cause)
  | none => .ok settings

end Settings

end DerivedTelemetry
