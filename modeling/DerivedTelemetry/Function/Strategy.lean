import DerivedTelemetry.Fault

/-!
# Lazy functions

A lazy function decides, while its call is under way, which arguments it looks at.
It goes through them once, from left to right, and at each step evaluates the next
one, passes over it, asks how many are left, or finishes.  Such a function is a
strategy: a tree of these steps, where what happens next may depend on every value
seen before.

A step past the last argument is refused.  The strategy is told the fault and may
go on regardless.
-/

namespace DerivedTelemetry

inductive Strategy where
  /-- Ends the call with a value. -/
  | finish (value : Decimal)
  /-- Ends the call with a fault. -/
  | fail (fault : Fault)
  /-- Asks how many arguments are left. -/
  | ask (next : Nat → Strategy)
  /-- Evaluates the next argument. -/
  | take (next : Decimal → Strategy) (refused : Fault → Strategy)
  /-- Passes over the next argument. -/
  | skip (next : Strategy) (refused : Fault → Strategy)

namespace Strategy

/-- The fault of a step past the last of `total` arguments. -/
def pastEnd (total : Nat) : Fault := .argumentCount "argument list" (.exact total) (total + 1)

/-- Evaluates the next argument and gives up when there is none. -/
def takeNext (next : Decimal → Strategy) : Strategy := .take next .fail

/-- Passes over the next argument and gives up when there is none. -/
def skipNext (next : Strategy) : Strategy := .skip next .fail

/-- Passes over `count` arguments. -/
def skipMany (next : Strategy) : (count : Nat) → Strategy
  | 0 => next
  | count + 1 => skipNext (skipMany next count)

/-- Arguments whose values are known beforehand, and what has become of those that
were reached so far. -/
structure Prepared where
  total : Nat
  left : List (Except Fault Decimal)
  evaluated : List Nat
  skipped : List Nat

def Prepared.of (values : List (Except Fault Decimal)) : Prepared :=
  ⟨values.length, values, [], []⟩

/-- The index of the next argument. -/
def Prepared.index (arguments : Prepared) : Nat := arguments.total - arguments.left.length

/-- Follows a strategy over prepared arguments. -/
def run : Strategy → Prepared → Except Fault Decimal × Prepared
  | .finish value, arguments => (.ok value, arguments)
  | .fail fault, arguments => (.error fault, arguments)
  | .ask next, arguments => (next arguments.left.length).run arguments
  | .take next refused, arguments =>
    match arguments.left with
    | [] => (refused (pastEnd arguments.total)).run arguments
    | value :: left =>
      let after := { arguments with
        left := left
        evaluated := arguments.evaluated ++ [arguments.index] }
      match value with
      | .ok value => (next value).run after
      | .error fault => (.error fault, after)
  | .skip next refused, arguments =>
    match arguments.left with
    | [] => (refused (pastEnd arguments.total)).run arguments
    | _ :: left =>
      next.run { arguments with
        left := left
        skipped := arguments.skipped ++ [arguments.index] }

end Strategy

end DerivedTelemetry
