import DerivedTelemetry.Binary64.Shortest
import DerivedTelemetry.Decimal.Literal
import DerivedTelemetry.Expression.Token
import DerivedTelemetry.Function.Arity
import DerivedTelemetry.Window

/-!
# Faults

Everything that can go wrong, as causes.  A fault keeps what its message needs;
the wording stands in one function for each family.

The families differ in whose mistake they are.  A parse fault, an unknown
function, a wrong number of arguments and a bad setting belong to what was
written down once and will be found again on every use: these are configuration
faults.  The others belong to the values of one moment.
-/

namespace DerivedTelemetry

/-- What is wrong with the text of an expression.  Positions count bytes from its
beginning. -/
inductive ParseFault where
  | tooLong (bytes limit : Nat)
  | blank
  | loneMark (mark : Char) (position : Nat)
  | openString (position : Nat)
  | malformedNumber (text : String) (position : Nat)
  | invalidNumber (text : String) (position : Nat) (cause : Decimal.LiteralError)
  | vanishingNumber (text : String) (position : Nat)
  | strayCharacter (character : Char) (position : Nat)
  | strayClose (position : Nat)
  | missingClose (position : Nat)
  | unexpected (symbol : Symbol) (position : Nat)
  | chained (symbol : Symbol) (position : Nat)
  | tooDeep (limit : Nat)
  | strayString (text : String) (position : Nat)
  | functionAsVariable (name : String)
  | mismatch (wanted found : Symbol) (position : Nat)
  | emptyArgument (function : String) (position : Nat)
  | missingCallClose (function : String) (position : Nat)
  | notQuoted (function : String) (argument : Nat) (found : Symbol) (position : Nat)
  | noWindow (function : String)
  | unknownWindow (code : String)
  deriving DecidableEq

/-- The operations that can exceed the capacity. -/
inductive Operation where
  | add
  | sub
  | mul
  | div
  deriving DecidableEq

/-- What is wrong with the numbers that a calculation met. -/
inductive ArithmeticFault where
  | overflow (operation : Operation) (a b : Decimal)
  | divisionByZero
  | notFinite (function : String)
  | doubleOutOfRange (function : String) (result : Binary64.Parts)
  | negative (function : String) (argument : Decimal)
  | notPositive (function : String) (argument : Decimal)
  | outsideUnit (function : String) (argument : Decimal)
  | inverseOfZero
  | negativeBase (base exponent : Decimal)
  | powerOutOfRange
  | inverseOutOfRange (base : Decimal) (exponent : Int)
  | noSamples (function : String) (window : Window)
  | zeroReference (window : Window)
  | rankOutside (rank : Decimal)
  | rankOutOfRange
  | reported (text : String)
  deriving DecidableEq

/-- What is wrong with the settings of an engine. -/
inductive SettingFault where
  | precision (value : Nat)
  | nesting (value : Nat)
  | length
  | noExtension
  | unknownExtension (extension : String)
  | unreadable
  deriving DecidableEq

inductive Fault where
  | parse (cause : ParseFault)
  | unknownVariable (name : String)
  | unknownFunction (name : String)
  | argumentCount (function : String) (expected : Arity) (actual : Nat)
  | arithmetic (cause : ArithmeticFault)
  | noContext (function : String)
  | store (message : String)
  | setting (cause : SettingFault)
  deriving DecidableEq

private def atPosition (position : Nat) : String := " at position " ++ position.repr

def ParseFault.message : ParseFault → String
  | .tooLong bytes limit =>
    "expression is " ++ bytes.repr ++ " bytes long, the limit is " ++ limit.repr
  | .blank => "empty expression"
  | .loneMark mark position =>
    "unexpected '" ++ mark.toString ++ "'" ++ atPosition position ++
      " (did you mean '" ++ mark.toString ++ "='?)"
  | .openString position => "unterminated string literal" ++ atPosition position
  | .malformedNumber text position => "malformed number '" ++ text ++ "'" ++ atPosition position
  | .invalidNumber text position cause =>
    "invalid number '" ++ text ++ "'" ++ atPosition position ++ ": " ++ cause.message
  | .vanishingNumber text position =>
    "number '" ++ text ++ "'" ++ atPosition position ++ " is too small to represent"
  | .strayCharacter character position =>
    "unexpected character '" ++ character.toString ++ "'" ++ atPosition position
  | .strayClose position => "unbalanced ')'" ++ atPosition position
  | .missingClose position => "unbalanced '('" ++ atPosition position
  | .unexpected symbol position => "unexpected " ++ symbol.describe ++ atPosition position
  | .chained symbol position =>
    "comparisons cannot be chained (" ++ symbol.describe ++ atPosition position ++ ")"
  | .tooDeep limit => "expression nesting exceeds the maximum depth of " ++ limit.repr
  | .strayString text position =>
    (Symbol.quoted text).describe ++ atPosition position ++
      " is only allowed as a statistical function argument"
  | .functionAsVariable name =>
    "'" ++ name ++ "' is a function; call it as " ++ name ++ "(...)"
  | .mismatch wanted found position =>
    "expected " ++ wanted.describe ++ " but found " ++ found.describe ++ atPosition position
  | .emptyArgument function position =>
    "empty argument in call to " ++ function ++ atPosition position
  | .missingCallClose function position =>
    "unbalanced '(' in call to " ++ function ++ atPosition position
  | .notQuoted function argument found position =>
    function ++ ": argument " ++ argument.repr ++ " must be a quoted string, found " ++
      found.describe ++ atPosition position
  | .noWindow function => function ++ ": expected a variable name and a time window"
  | .unknownWindow code =>
    "Unknown time window '" ++ code ++ "'. Valid options: 5m, 15m, 1h, 24h, 7d, 30d"

def Operation.sign : Operation → String
  | .add => "+"
  | .sub => "-"
  | .mul => "*"
  | .div => "/"

def ArithmeticFault.message : ArithmeticFault → String
  | .overflow operation a b =>
    "Overflow in " ++ a.toText ++ " " ++ operation.sign ++ " " ++ b.toText
  | .divisionByZero => "Division by zero"
  | .notFinite function => function ++ ": result is not a finite number"
  | .doubleOutOfRange function result =>
    function ++ ": result " ++ String.ofList result.toChars ++ " is out of range"
  | .negative function argument =>
    function ++ ": argument must be non-negative, got " ++ argument.toText
  | .notPositive function argument =>
    function ++ ": argument must be positive, got " ++ argument.toText
  | .outsideUnit function argument =>
    function ++ ": argument must be between -1 and 1, got " ++ argument.toText
  | .inverseOfZero => "pow: zero cannot be raised to a negative power"
  | .negativeBase base exponent =>
    "pow: negative base " ++ base.toText ++ " with fractional exponent " ++ exponent.toText
  | .powerOutOfRange => "pow: result is out of range"
  | .inverseOutOfRange base exponent =>
    "pow: " ++ base.toText ++ "^" ++ exponent.repr ++ " is out of range"
  | .noSamples function window => function ++ ": no samples in the last " ++ window.code
  | .zeroReference window =>
    "percentChange: earliest value in the last " ++ window.code ++ " is zero"
  | .rankOutside rank => "percentile: rank must be between 0 and 100, got " ++ rank.toText
  | .rankOutOfRange => "percentile: rank is out of range"
  | .reported text => text

def SettingFault.message : SettingFault → String
  | .precision value => "precision must be between 1 and 28, got " ++ value.repr
  | .nesting value => "max_depth must be between 1 and 256, got " ++ value.repr
  | .length => "max_expression_length must be greater than 0"
  | .noExtension => "Config file must have an extension"
  | .unknownExtension extension => "Unsupported config file format: " ++ extension
  | .unreadable => "Failed to load configuration"

def Fault.message : Fault → String
  | .parse cause => "Parse error: " ++ cause.message
  | .unknownVariable name => "Unknown identifier: " ++ name
  | .unknownFunction name => "Unknown function: " ++ name
  | .argumentCount function expected actual =>
    function ++ ": expected " ++ expected.toText ++ " argument(s), got " ++ actual.repr
  | .arithmetic cause => "Arithmetic error: " ++ cause.message
  | .noContext function =>
    function ++ ": statistical functions require an execution context (device and timestamp)"
  | .store message => "Telemetry store error: " ++ message
  | .setting cause => "Configuration error: " ++ cause.message

/-- Whether the fault belongs to what was written down and returns on every use. -/
def Fault.isConfiguration : Fault → Bool
  | .parse _ | .unknownFunction _ | .argumentCount _ _ _ | .setting _ => true
  | _ => false

/-- The family of a fault, without what it says. -/
inductive Fault.Kind where
  | parse
  | unknownVariable
  | unknownFunction
  | argumentCount
  | arithmetic
  | noContext
  | store
  | setting
  deriving DecidableEq

def Fault.kind : Fault → Fault.Kind
  | .parse _ => .parse
  | .unknownVariable _ => .unknownVariable
  | .unknownFunction _ => .unknownFunction
  | .argumentCount _ _ _ => .argumentCount
  | .arithmetic _ => .arithmetic
  | .noContext _ => .noContext
  | .store _ => .store
  | .setting _ => .setting

/-- Why a run has no result: a fault, or a store that broke off without an answer.
The latter is nobody's mistake, and nothing is said about it. -/
inductive Failure where
  | fault (cause : Fault)
  | broken
  deriving DecidableEq

def Failure.isConfiguration : Failure → Bool
  | .fault cause => cause.isConfiguration
  | .broken => false

end DerivedTelemetry
