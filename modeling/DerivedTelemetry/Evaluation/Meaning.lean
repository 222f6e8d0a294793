import DerivedTelemetry.Evaluation.Call
import DerivedTelemetry.Evaluation.Grammar
import DerivedTelemetry.Expression.Derivation

/-!
# What an expression means

The machine computes while it reads.  Here the meaning of an expression is read off
its derivation tree instead, without tokens, positions or a state: the requests that
are made to the store, in order, and the result.  Operands and arguments count from
left to right, and the first failure ends everything.

The meaning of an argument is given to a lazy function whole.  What the function does
not take has no part in the meaning of the call.  Comparisons are of values: of the
rational numbers that decimals stand for.
-/

namespace DerivedTelemetry

/-- A result, and the requests that were made on the way to it. -/
structure Outcome (α : Type) where
  requests : List Request
  result : Except Failure α

namespace Outcome

protected def pure {α : Type} (value : α) : Outcome α := ⟨[], .ok value⟩

/-- One outcome after another.  Nothing follows a failure. -/
protected def bind {α β : Type} (first : Outcome α) (second : α → Outcome β) : Outcome β :=
  match first.result with
  | .ok value => ⟨first.requests ++ (second value).requests, (second value).result⟩
  | .error failure => ⟨first.requests, .error failure⟩

instance : Monad Outcome where
  pure := Outcome.pure
  bind := Outcome.bind

def fail {α : Type} (fault : Fault) : Outcome α := ⟨[], .error (.fault fault)⟩

/-- A result for which nothing was requested. -/
def lift {α : Type} (result : Except Fault α) : Outcome α := ⟨[], result.mapError .fault⟩

end Outcome

/-- What a strategy makes of the arguments that are left of `total`. -/
def Strategy.meaning (total : Nat) : Strategy → List (Outcome Decimal) → Outcome Decimal
  | .finish value, _ => pure value
  | .fail fault, _ => .fail fault
  | .ask next, left => (next left.length).meaning total left
  | .take _ refused, [] => (refused (pastEnd total)).meaning total []
  | .take next _, first :: left => do
    let value ← first
    (next value).meaning total left
  | .skip _ refused, [] => (refused (pastEnd total)).meaning total []
  | .skip next _, _ :: left => next.meaning total left

/-- The samples of a window, reduced. -/
def windowMeaning (env : Environment) (function : String)
    (reduction : Statistics.Reduction) (texts : List String) (numbers : List Decimal) :
    Outcome Decimal :=
  match Call.target function texts, env.context with
  | .error cause, _ => .fail (.parse cause)
  | .ok _, none => .fail (.noContext function)
  | .ok (metric, window), some context => do
    let start := window.start context.reference
    let request : Request := ⟨context.device, metric, start, context.reference⟩
    let samples ← (⟨[request], env.store request⟩ : Outcome (List Sample))
    .lift (reduction ⟨samples, window, env.precision⟩ numbers)

/-- A call of a registered function, given what its arguments mean. -/
def Entry.meaning (env : Environment) (entry : Entry) (texts : List String)
    (values : List (Outcome Decimal)) : Outcome Decimal :=
  match entry.implementation with
  | .numeric _ function => do
    let arguments ← values.mapM id
    .lift (function arguments)
  | .lazy _ strategy => strategy.meaning values.length values
  | .statistical _ reduction => do
    let numbers ← values.mapM id
    windowMeaning env entry.name reduction texts numbers

namespace Derivation

mutual

def Comparison.meaning (env : Environment) : Comparison → Outcome Decimal
  | .plain operand => operand.meaning env
  | .compared left symbol right _ => do
    let a ← left.meaning env
    let b ← right.meaning env
    return if Grammar.asserts symbol a.value b.value then .one else .zero

def Sum.meaning (env : Environment) : Sum → Outcome Decimal
  | .plain operand => operand.meaning env
  | .added left right => do
    let a ← left.meaning env
    let b ← right.meaning env
    .lift (Checked.add a b)
  | .subtracted left right => do
    let a ← left.meaning env
    let b ← right.meaning env
    .lift (Checked.sub a b)

def Product.meaning (env : Environment) : Product → Outcome Decimal
  | .plain operand => operand.meaning env
  | .multiplied left right => do
    let a ← left.meaning env
    let b ← right.meaning env
    .lift (Checked.mul a b)
  | .divided left right => do
    let a ← left.meaning env
    let b ← right.meaning env
    .lift (Checked.div a b env.precision)

def Factor.meaning (env : Environment) : Factor → Outcome Decimal
  | .positive operand => operand.meaning env
  | .negative operand => do
    let value ← operand.meaning env
    return -value
  | .number value => pure value
  | .group inner => inner.meaning env
  | .named name =>
    match env.bindings name with
    | some value => pure value
    | none => .fail (.unknownVariable name)
  | .call name arguments =>
    match env.registry.lookup? name with
    | some entry => entry.meaning env arguments.texts (arguments.meanings env)
    | none => .fail (.unknownFunction name)

/-- What the arguments mean that are not quoted strings. -/
def Arguments.meanings (env : Environment) : Arguments → List (Outcome Decimal)
  | .nil => []
  | .value first rest => first.meaning env :: rest.meanings env
  | .text _ rest => rest.meanings env

end

end Derivation

end DerivedTelemetry
