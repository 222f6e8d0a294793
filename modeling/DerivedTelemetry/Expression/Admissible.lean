import DerivedTelemetry.Expression.Derivation
import DerivedTelemetry.Function.Registry

/-!
# Admissible trees

A tree says how an expression is built, and a registry says which names there are.
An expression is admissible under a registry when both agree: every call is of a
registered function and has arguments that fit it, and no variable has the name of a
function.
-/

namespace DerivedTelemetry

/-- How an argument is given. -/
def ArgumentKind.isQuoted : ArgumentKind → Bool
  | .literal => true
  | .number => false

/-- Whether quoted strings stand where a function wants them and nowhere else.  The
second string of a statistical function has to be the code of a window. -/
def Implementation.Admits (implementation : Implementation) (quotes : List Bool)
    (texts : List String) : Prop :=
  match implementation with
  | .statistical signature _ =>
    quotes = signature.map (·.isQuoted) ∧
      ∃ metric code others, texts = metric :: code :: others ∧ Window.IsCode code
  | _ => texts = []

namespace Derivation

mutual

def Comparison.Admissible (registry : Registry) : Comparison → Prop
  | .plain operand => operand.Admissible registry
  | .compared left _ right _ => left.Admissible registry ∧ right.Admissible registry

def Sum.Admissible (registry : Registry) : Sum → Prop
  | .plain operand => operand.Admissible registry
  | .added left right => left.Admissible registry ∧ right.Admissible registry
  | .subtracted left right => left.Admissible registry ∧ right.Admissible registry

def Product.Admissible (registry : Registry) : Product → Prop
  | .plain operand => operand.Admissible registry
  | .multiplied left right => left.Admissible registry ∧ right.Admissible registry
  | .divided left right => left.Admissible registry ∧ right.Admissible registry

def Factor.Admissible (registry : Registry) : Factor → Prop
  | .positive operand => operand.Admissible registry
  | .negative operand => operand.Admissible registry
  | .number _ => True
  | .group inner => inner.Admissible registry
  | .named name => registry.contains name = false
  | .call name arguments =>
    (∃ entry, registry.lookup? name = some entry ∧
      entry.arity.accepts arguments.quotes.length ∧
      entry.implementation.Admits arguments.quotes arguments.texts) ∧
    arguments.Admissible registry

def Arguments.Admissible (registry : Registry) : Arguments → Prop
  | .nil => True
  | .value first rest => first.Admissible registry ∧ rest.Admissible registry
  | .text _ rest => rest.Admissible registry

end

end Derivation

end DerivedTelemetry
