import DerivedTelemetry.Function.Math
import DerivedTelemetry.Function.Strategy

/-!
# Logical functions

`if`, `and` and `or` are lazy: what does not decide their result is passed over,
so that it need not have a value.
-/

namespace DerivedTelemetry.Logic

open Strategy (takeNext skipNext skipMany)

/-- A condition and two branches, of which the condition chooses one. -/
def ifThenElse : Strategy :=
  .ask fun count =>
    if count = 3 then
      takeNext fun condition =>
        if condition.isTrue then takeNext fun value => skipNext (.finish value)
        else skipNext (takeNext .finish)
    else .fail (.argumentCount "if" (.exact 3) count)

/-- Evaluates arguments as long as their truth is `wanted`.  The first that differs
decides the result. -/
def whileTruth (wanted : Bool) : (count : Nat) → Strategy
  | 0 => .finish (Decimal.ofBool wanted)
  | count + 1 =>
    takeNext fun value =>
      if value.isTrue = wanted then whileTruth wanted count
      else skipMany (.finish (Decimal.ofBool !wanted)) count

/-- A logical function of at least one argument. -/
def variadic (name : String) (wanted : Bool) : Strategy :=
  .ask fun count =>
    if count = 0 then .fail (.argumentCount name (.atLeast 1) 0)
    else whileTruth wanted count

/-- True when every argument is. -/
def and : Strategy := variadic "and" true

/-- True when any argument is. -/
def or : Strategy := variadic "or" false

/-- True when its argument is not. -/
def not : Math.NumericFunction :=
  Math.unary "not" fun x => .ok (Decimal.ofBool x.isZero)

end DerivedTelemetry.Logic
