import DerivedTelemetry.Decimal.Basic
import DerivedTelemetry.Time.Timestamp

/-!
# Samples
-/

namespace DerivedTelemetry

/-- The value that a variable had at one time. -/
structure Sample where
  timestamp : Timestamp
  value : Decimal
  deriving DecidableEq, Inhabited

end DerivedTelemetry
