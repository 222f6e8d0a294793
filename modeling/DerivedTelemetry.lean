import DerivedTelemetry.Decimal.Value
import DerivedTelemetry.Evaluation.Meaning
import DerivedTelemetry.Expression.Admissible
import DerivedTelemetry.Function.Builtin
import DerivedTelemetry.Record.Encode
import DerivedTelemetry.Settings.File
import DerivedTelemetry.Proofs.ArgumentCounts
import DerivedTelemetry.Proofs.ArrivalLog
import DerivedTelemetry.Proofs.ConfigurationFaults
import DerivedTelemetry.Proofs.Denotation
import DerivedTelemetry.Store
import DerivedTelemetry.Proofs.RecurringFaults
import DerivedTelemetry.Proofs.Evaluation.Consumption
import DerivedTelemetry.Proofs.Evaluation.LazySteps
import DerivedTelemetry.Proofs.Lookback
import DerivedTelemetry.Proofs.Evaluation.Grading
import DerivedTelemetry.Proofs.LazyArguments
import DerivedTelemetry.Proofs.Decimal.Bounds
import DerivedTelemetry.Proofs.Decimal.Readers
import DerivedTelemetry.Proofs.Function.BoundedFunctions
import DerivedTelemetry.Proofs.ScaleGrowth
import DerivedTelemetry.Proofs.Footprint
import DerivedTelemetry.Proofs.Isolation
import DerivedTelemetry.Proofs.Limits
import DerivedTelemetry.Proofs.Spelling
import DerivedTelemetry.Proofs.Decimal.Exact
import DerivedTelemetry.Proofs.Decimal.Significant
import DerivedTelemetry.Proofs.Decimal.Quotients
import DerivedTelemetry.Proofs.Division
import DerivedTelemetry.Proofs.WholePowers
import DerivedTelemetry.Proofs.SteadySeries
import DerivedTelemetry.Proofs.Decimal.LowestTerms
import DerivedTelemetry.Proofs.Decimal.Nearest
import DerivedTelemetry.Proofs.Decimal.SignificantOrder
import DerivedTelemetry.Proofs.OrderStatistics
import DerivedTelemetry.Proofs.Percentiles
import DerivedTelemetry.Proofs.Medians
import DerivedTelemetry.Proofs.Means
import DerivedTelemetry.Proofs.RoundedResults
import DerivedTelemetry.Proofs.Extremes
import DerivedTelemetry.Proofs.NegativeBases
import DerivedTelemetry.Proofs.PreparedArguments
import DerivedTelemetry.Proofs.Registrations
import DerivedTelemetry.Proofs.Segmentation
import DerivedTelemetry.Proofs.WrittenTokens
import DerivedTelemetry.Proofs.CharacterBoundaries
import DerivedTelemetry.Proofs.WindowCodes
