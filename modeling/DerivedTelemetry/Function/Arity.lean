/-!
# Argument counts
-/

namespace DerivedTelemetry

/-- How many arguments a function accepts. -/
inductive Arity where
  | exact (count : Nat)
  | atLeast (count : Nat)
  deriving DecidableEq, Inhabited

namespace Arity

def accepts : Arity → Nat → Bool
  | .exact n, count => count == n
  | .atLeast n, count => decide (n ≤ count)

def toText : Arity → String
  | .exact n => n.repr
  | .atLeast n => "at least " ++ n.repr

end Arity

end DerivedTelemetry
