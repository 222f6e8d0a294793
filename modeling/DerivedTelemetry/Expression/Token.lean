import DerivedTelemetry.Decimal.Text

/-!
# Tokens of an expression
-/

namespace DerivedTelemetry

/-- What a token is.  Numbers carry the decimal they read as; strings are carried
without their quotes. -/
inductive Symbol where
  | number (value : Decimal)
  | name (text : String)
  | quoted (text : String)
  | plus
  | minus
  | star
  | slash
  | openParen
  | closeParen
  | comma
  | greater
  | less
  | greaterEqual
  | lessEqual
  | equal
  | notEqual
  | finish
  deriving DecidableEq, Inhabited

/-- How a symbol is named in messages. -/
def Symbol.describe : Symbol → String
  | .number value => "number " ++ value.toText
  | .name text => "identifier '" ++ text ++ "'"
  | .quoted text => "string \"" ++ text ++ "\""
  | .plus => "'+'"
  | .minus => "'-'"
  | .star => "'*'"
  | .slash => "'/'"
  | .openParen => "'('"
  | .closeParen => "')'"
  | .comma => "','"
  | .greater => "'>'"
  | .less => "'<'"
  | .greaterEqual => "'>='"
  | .lessEqual => "'<='"
  | .equal => "'=='"
  | .notEqual => "'!='"
  | .finish => "end of expression"

/-- The six symbols that compare two sums. -/
def Symbol.isComparison : Symbol → Bool
  | .greater | .less | .greaterEqual | .lessEqual | .equal | .notEqual => true
  | _ => false

/-- A symbol and the offset of its first byte in the expression. -/
structure Token where
  symbol : Symbol
  position : Nat
  deriving DecidableEq, Inhabited

end DerivedTelemetry
