import DerivedTelemetry.Evaluation.Grammar
import DerivedTelemetry.Expression.Lexer
import DerivedTelemetry.Settings.Basic

/-!
# The engine

An engine evaluates expressions and checks them.  It keeps nothing between two runs:
each answer depends on the expression, the values of its variables, the context and
the store alone.
-/

namespace DerivedTelemetry

structure Engine where
  settings : Settings
  registry : Registry

namespace Engine

/-- The state in which the machine begins. -/
def start (live : Bool) (tokens : List Token) : State :=
  ⟨tokens, live, 0, .empty, .empty⟩

/-- The tokens of an expression that is neither too long nor blank. -/
def tokens (engine : Engine) (expression : String) : Except ParseFault (List Token) :=
  if engine.settings.maxLength < expression.utf8ByteSize then
    .error (.tooLong expression.utf8ByteSize engine.settings.maxLength)
  else if expression.toList.all Text.isBlank then .error .blank
  else Lexer.tokens expression.toList

def environment (engine : Engine) (store : Store) (bindings : String → Option Decimal)
    (context : Option Context) : Environment :=
  ⟨engine.registry, bindings, context, store, engine.settings.precision,
    engine.settings.maxDepth⟩

/-- One pass over an expression, with its value, the names in it, and its effects. -/
def run (engine : Engine) (env : Environment) (live : Bool) (expression : String) :
    Except Failure (Decimal × ExpressionInfo) × Trace :=
  match engine.tokens expression with
  | .error cause => (.error (.fault (.parse cause)), .empty)
  | .ok tokens =>
    match Grammar.expression env (start live tokens) with
    | (.ok value, after) => (.ok (value, after.info), after.trace)
    | (.error failure, after) => (.error failure, after.trace)

/-- What is reported about the result of an evaluation: its fault. -/
def failureTrace (expression : String) : Except Failure Decimal → Trace
  | .error (.fault cause) => .event (.evaluationFailed expression cause)
  | _ => .empty

/-- The value of an expression. -/
def evaluate (engine : Engine) (store : Store) (bindings : String → Option Decimal)
    (context : Option Context) (expression : String) : Except Failure Decimal × Trace :=
  let (result, trace) := engine.run (engine.environment store bindings context) true expression
  let value := result.map (·.1)
  (value, trace ++ failureTrace expression value)

/-- The names in an expression, if nothing about its text is wrong. -/
def validate (engine : Engine) (expression : String) : Except Failure ExpressionInfo :=
  let env := engine.environment emptyStore (fun _ => none) none
  (engine.run env false expression).1.map (·.2)

end Engine

end DerivedTelemetry
