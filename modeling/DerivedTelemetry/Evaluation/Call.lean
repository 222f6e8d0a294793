import DerivedTelemetry.Evaluation.ArgumentCount
import DerivedTelemetry.Evaluation.Machine

/-!
# Calls

There are three ways to read the arguments of a call.  A numeric function has all of
them evaluated first.  A lazy function is followed step by step, and what it leaves
over is passed over afterwards.  A statistical function has a signature that says
where quoted strings stand.  In all three the arguments are separated by commas and
the closing parenthesis comes last.

An argument is an expression, and reading one is the parameter `expression` here: the
grammar closes the circle.
-/

namespace DerivedTelemetry.Call

open Eval

/-- The comma before every argument but the first. -/
def separator (index : Nat) : Eval Unit :=
  if index = 0 then pure () else expect .comma

/-- `count` more arguments, the first of which has the given index. -/
def values (expression : Eval Decimal) (index : Nat) : (count : Nat) → Eval (List Decimal)
  | 0 => pure []
  | count + 1 => do
    separator index
    let value ← expression
    let rest ← values expression (index + 1) count
    return value :: rest

def numeric (expression : Eval Decimal) (function : Math.NumericFunction) (count : Nat) :
    Eval Decimal := do
  let arguments ← values expression 0 count
  expect .closeParen
  whenLive (lift (function arguments))

/-- Follows a strategy that has consumed some of the arguments of its call.  Answers
its value and how many arguments it has consumed in the end. -/
def follow (expression : Eval Decimal) (total : Nat) :
    Strategy → (consumed : Nat) → Eval (Decimal × Nat)
  | .finish value, consumed => pure (value, consumed)
  | .fail fault, _ => fail fault
  | .ask next, consumed => follow expression total (next (total - consumed)) consumed
  | .take next refused, consumed =>
    if consumed < total then do
      separator consumed
      let value ← expression
      follow expression total (next value) (consumed + 1)
    else follow expression total (refused (Strategy.pastEnd total)) consumed
  | .skip next refused, consumed =>
    if consumed < total then do
      separator consumed
      let _ ← quietly expression
      follow expression total next (consumed + 1)
    else follow expression total (refused (Strategy.pastEnd total)) consumed

/-- Passes over the arguments that a strategy has left. -/
def passOver (expression : Eval Decimal) (consumed : Nat) : (count : Nat) → Eval Unit
  | 0 => pure ()
  | count + 1 => do
    separator consumed
    let _ ← quietly expression
    passOver expression (consumed + 1) count

def lazyValue (expression : Eval Decimal) (strategy : Strategy) (count : Nat) :
    Eval Decimal := do
  let (value, consumed) ← follow expression count strategy 0
  passOver expression consumed (count - consumed)
  return value

/-- Where the text is only checked, all arguments are read alike. -/
def lazy (expression : Eval Decimal) (strategy : Strategy) (count : Nat) :
    Eval Decimal := do
  let value ←
    if (← get).live then lazyValue expression strategy count
    else do
      let _ ← values expression 0 count
      pure Decimal.zero
  expect .closeParen
  return value

/-- A quoted string, as the argument with the given index. -/
def literal (function : String) (index : Nat) : Eval String := do
  let token ← advance
  match token.symbol with
  | .quoted text => return text
  | symbol => failParse (.notQuoted function (index + 1) symbol token.position)

/-- The literals and the numbers among the arguments of a statistical call. -/
structure Arguments where
  literals : List String
  numbers : List Decimal

/-- The arguments for the rest of a signature. -/
def signature (expression : Eval Decimal) (function : String) (index : Nat) :
    List ArgumentKind → Eval Arguments
  | [] => pure ⟨[], []⟩
  | .literal :: kinds => do
    separator index
    let text ← literal function index
    let rest ← signature expression function (index + 1) kinds
    return { rest with literals := text :: rest.literals }
  | .number :: kinds => do
    separator index
    let value ← expression
    let rest ← signature expression function (index + 1) kinds
    return { rest with numbers := value :: rest.numbers }

/-- The metric and the window of a statistical call: its first two literals. -/
def target (function : String) (literals : List String) :
    Except ParseFault (String × Window) :=
  match literals with
  | metric :: code :: _ =>
    match Window.ofCode? code with
    | some window => .ok (metric, window)
    | none => .error (.unknownWindow code)
  | _ => .error (.noWindow function)

/-- Fetches the window of a metric and reduces it. -/
def reduce (env : Environment) (function metric : String) (window : Window)
    (reduction : Statistics.Reduction) (numbers : List Decimal) : Eval Decimal := do
  match env.context with
  | none => fail (.noContext function)
  | some context =>
    let start := window.start context.reference
    let samples ← request env.store ⟨context.device, metric, start, context.reference⟩
    report (.windowFetched function context.device metric window samples.length)
    lift (reduction ⟨samples, window, env.precision⟩ numbers)

def statistical (env : Environment) (expression : Eval Decimal) (function : String)
    (kinds : List ArgumentKind) (reduction : Statistics.Reduction) : Eval Decimal := do
  let arguments ← signature expression function 0 kinds
  expect .closeParen
  match target function arguments.literals with
  | .error cause => failParse cause
  | .ok (metric, window) =>
    whenLive (reduce env function metric window reduction arguments.numbers)

/-- The call of a function whose name was just taken.  The arguments are counted before
any of them is read. -/
def invoke (env : Environment) (expression : Eval Decimal) (entry : Entry) (position : Nat) :
    Eval Decimal := do
  expect .openParen
  match ArgumentCount.ofTokens entry.name position (← get).ahead with
  | .error cause => failParse cause
  | .ok (count, _) =>
    if entry.arity.accepts count then
      match entry.implementation with
      | .numeric _ function => numeric expression function count
      | .lazy _ strategy => lazy expression strategy count
      | .statistical kinds reduction =>
        statistical env expression entry.name kinds reduction
    else fail (.argumentCount entry.name entry.arity count)

/-- A call by a name, which is looked up first. -/
def call (env : Environment) (expression : Eval Decimal) (name : String) (position : Nat) :
    Eval Decimal := do
  match env.registry.lookup? name with
  | none => fail (.unknownFunction name)
  | some entry =>
    noteFunction entry.name
    invoke env expression entry position

end DerivedTelemetry.Call
