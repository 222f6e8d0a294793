import DerivedTelemetry.Expression.Token

/-!
# Derivation trees

The evaluator keeps no tree.  The trees here are the ones it does not keep: for every
rule of the grammar there is a constructor, so that a tree can only be built the way
an expression is derived.  The yield of a tree is the list of symbols that it derives;
different trees have different yields, since groups and signs have nodes of their own.

Whether a name is known, and what the arguments of a call must look like, is not a
matter of the grammar: a quoted string may be any argument here.
-/

namespace DerivedTelemetry.Derivation

mutual

/-- At most one comparison of two sums. -/
inductive Comparison where
  | plain (operand : Sum)
  | compared (left : Sum) (symbol : Symbol) (right : Sum) (valid : symbol.isComparison)

/-- Products added and subtracted, from the left. -/
inductive Sum where
  | plain (operand : Product)
  | added (left : Sum) (right : Product)
  | subtracted (left : Sum) (right : Product)

/-- Factors multiplied and divided, from the left. -/
inductive Product where
  | plain (operand : Factor)
  | multiplied (left : Product) (right : Factor)
  | divided (left : Product) (right : Factor)

inductive Factor where
  | positive (operand : Factor)
  | negative (operand : Factor)
  | number (value : Decimal)
  | group (inner : Comparison)
  | named (name : String)
  | call (name : String) (arguments : Arguments)

/-- The arguments of a call, from the first to the last. -/
inductive Arguments where
  | nil
  | value (first : Comparison) (rest : Arguments)
  | text (first : String) (rest : Arguments)

end

/-- Arguments with a comma before each but the first. -/
def separated : List (List Symbol) → List Symbol
  | [] => []
  | [only] => only
  | first :: rest => first ++ .comma :: separated rest

mutual

/-- The symbols that a tree derives. -/
def Comparison.yield : Comparison → List Symbol
  | .plain operand => operand.yield
  | .compared left symbol right _ => left.yield ++ symbol :: right.yield

def Sum.yield : Sum → List Symbol
  | .plain operand => operand.yield
  | .added left right => left.yield ++ .plus :: right.yield
  | .subtracted left right => left.yield ++ .minus :: right.yield

def Product.yield : Product → List Symbol
  | .plain operand => operand.yield
  | .multiplied left right => left.yield ++ .star :: right.yield
  | .divided left right => left.yield ++ .slash :: right.yield

def Factor.yield : Factor → List Symbol
  | .positive operand => .plus :: operand.yield
  | .negative operand => .minus :: operand.yield
  | .number value => [.number value]
  | .group inner => .openParen :: inner.yield ++ [.closeParen]
  | .named name => [.name name]
  | .call name arguments =>
    .name name :: .openParen :: separated arguments.yields ++ [.closeParen]

/-- The symbols of each argument. -/
def Arguments.yields : Arguments → List (List Symbol)
  | .nil => []
  | .value first rest => first.yield :: rest.yields
  | .text first rest => [.quoted first] :: rest.yields

end

/-- Which of the arguments are quoted strings. -/
def Arguments.quotes : Arguments → List Bool
  | .nil => []
  | .value _ rest => false :: rest.quotes
  | .text _ rest => true :: rest.quotes

/-- The quoted strings among the arguments. -/
def Arguments.texts : Arguments → List String
  | .nil => []
  | .value _ rest => rest.texts
  | .text first rest => first :: rest.texts

mutual

/-- How many factors are open at once where most of them are: every sign, group,
call and operand is a factor. -/
def Comparison.nesting : Comparison → Nat
  | .plain operand => operand.nesting
  | .compared left _ right _ => max left.nesting right.nesting

def Sum.nesting : Sum → Nat
  | .plain operand => operand.nesting
  | .added left right => max left.nesting right.nesting
  | .subtracted left right => max left.nesting right.nesting

def Product.nesting : Product → Nat
  | .plain operand => operand.nesting
  | .multiplied left right => max left.nesting right.nesting
  | .divided left right => max left.nesting right.nesting

def Factor.nesting : Factor → Nat
  | .positive operand => operand.nesting + 1
  | .negative operand => operand.nesting + 1
  | .number _ => 1
  | .group inner => inner.nesting + 1
  | .named _ => 1
  | .call _ arguments => arguments.nesting + 1

def Arguments.nesting : Arguments → Nat
  | .nil => 0
  | .value first rest => max first.nesting rest.nesting
  | .text _ rest => rest.nesting

end

end DerivedTelemetry.Derivation
