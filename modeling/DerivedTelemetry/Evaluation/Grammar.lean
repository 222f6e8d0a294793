import DerivedTelemetry.Decimal.Value
import DerivedTelemetry.Evaluation.Call

/-!
# The grammar

From the loosest to the tightest, an expression is

    comparison := sum [ (> | < | >= | <= | == | !=) sum ]
    sum        := product { (+ | -) product }
    product    := factor { (* | /) factor }
    factor     := (+ | -) factor | number | "(" comparison ")"
                | name "(" [ argument { "," argument } ] ")" | name

Sums and products associate to the left.  A comparison has no further one beside it.
Every factor may contain other factors, so factors are what nesting counts; the limit
on it also bounds the recursion.
-/

namespace DerivedTelemetry.Grammar

open Eval

/-- What a symbol makes of the two numbers beside it, if it is an operator. -/
abbrev Operators := Symbol → Option (Decimal → Decimal → Except Fault Decimal)

/-- The operators between the factors of a product. -/
def productOperators (env : Environment) : Operators
  | .star => some Checked.mul
  | .slash => some fun a b => Checked.div a b env.precision
  | _ => none

/-- The operators between the products of a sum. -/
def sumOperators : Operators
  | .plus => some Checked.add
  | .minus => some Checked.sub
  | _ => none

/-- More operands after a first one, up to a number of tokens. -/
def chainTail (operators : Operators) (operand : Eval Decimal) :
    (fuel : Nat) → Decimal → Eval Decimal
  | 0, value => pure value
  | fuel + 1, value => do
    match operators (← peek).symbol with
    | some operator => do
      let _ ← advance
      let right ← operand
      let result ← whenLive (lift (operator value right))
      chainTail operators operand fuel result
    | none => return value

/-- Operands with operators between them, from the left. -/
def chain (operators : Operators) (operand : Eval Decimal) : Eval Decimal := do
  let value ← operand
  chainTail operators operand (← get).ahead.length value

def product (env : Environment) (factor : Eval Decimal) : Eval Decimal :=
  chain (productOperators env) factor

def sum (env : Environment) (factor : Eval Decimal) : Eval Decimal :=
  chain sumOperators (product env factor)

/-- Whether a comparison holds between two values. -/
def holds (symbol : Symbol) (left right : Decimal) : Bool :=
  match symbol with
  | .greater => decide (right < left)
  | .less => decide (left < right)
  | .greaterEqual => decide (right ≤ left)
  | .lessEqual => decide (left ≤ right)
  | .equal => decide (left.Same right)
  | _ => !decide (left.Same right)

/-- Whether it holds between two rational numbers what a comparison symbol says of them. -/
def asserts (symbol : Symbol) (x y : Rat) : Bool :=
  match symbol with
  | .greater => decide (y < x)
  | .less => decide (x < y)
  | .greaterEqual => decide (y ≤ x)
  | .lessEqual => decide (x ≤ y)
  | .equal => decide (x = y)
  | .notEqual => decide (x ≠ y)
  | _ => false

/-- Decimals are compared by their values. -/
theorem holds_eq_asserts {symbol : Symbol} (h : symbol.isComparison = true) (a b : Decimal) :
    holds symbol a b = asserts symbol a.value b.value := by
  cases symbol with
  | greater => exact decide_eq_decide.mpr Decimal.lt_iff_value_lt
  | less => exact decide_eq_decide.mpr Decimal.lt_iff_value_lt
  | greaterEqual => exact decide_eq_decide.mpr Decimal.le_iff_value_le
  | lessEqual => exact decide_eq_decide.mpr Decimal.le_iff_value_le
  | equal => exact decide_eq_decide.mpr Decimal.same_iff_value_eq
  | notEqual =>
    change (!decide (a.Same b)) = decide (a.value ≠ b.value)
    rw [decide_eq_decide.mpr Decimal.same_iff_value_eq, decide_not]
  | _ => cases h

def comparison (env : Environment) (factor : Eval Decimal) : Eval Decimal := do
  let left ← sum env factor
  let symbol := (← peek).symbol
  if symbol.isComparison then
    let _ ← advance
    let right ← sum env factor
    let next ← peek
    if next.symbol.isComparison then failParse (.chained next.symbol next.position)
    else whenLive (return Decimal.ofBool (holds symbol left right))
  else return left

/-- A variable.  A bound name may be that of a function; an unbound one may not.
Where the text is only checked, a variable need not be bound. -/
def variableValue (env : Environment) (name : String) : Eval Decimal := do
  match env.bindings name with
  | some value =>
    noteVariable name
    whenLive (return value)
  | none =>
    if env.registry.contains name then failParse (.functionAsVariable name)
    else if (← get).live then fail (.unknownVariable name)
    else
      noteVariable name
      return Decimal.zero

/-- What a factor is made of, given how to read the factors inside it. -/
def primary (env : Environment) (factor : Eval Decimal) : Eval Decimal := do
  let token ← advance
  match token.symbol with
  | .plus => factor
  | .minus => do
    let value ← factor
    whenLive (return -value)
  | .number value => whenLive (return value)
  | .openParen => do
    let value ← comparison env factor
    match (← peek).symbol with
    | .closeParen => do
      let _ ← advance
      return value
    | _ => failParse (.missingClose token.position)
  | .name name => do
    match (← peek).symbol with
    | .openParen => Call.call env (comparison env factor) name token.position
    | _ => variableValue env name
  | .quoted text => failParse (.strayString text token.position)
  | symbol => failParse (.unexpected symbol token.position)

/-- A factor, in which at most `levels` may be nested. -/
def factor (env : Environment) : (levels : Nat) → Eval Decimal
  | 0 => failParse (.tooDeep env.maxDepth)
  | levels + 1 => nested env.maxDepth (primary env (factor env levels))

/-- A whole expression up to its end. -/
def expression (env : Environment) : Eval Decimal := do
  let value ← comparison env (factor env env.maxDepth)
  expectEnd
  return value

end DerivedTelemetry.Grammar
