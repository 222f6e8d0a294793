import DerivedTelemetry.Fault

/-!
# Counting arguments ahead

Before any argument of a call is looked at, its arguments are counted by the commas
up to the parenthesis that closes it.  Commas inside further parentheses belong to
other calls.  An empty place before, between or after commas is a fault, except that
nothing at all between the parentheses is a call without arguments.
-/

namespace DerivedTelemetry.ArgumentCount

/-- The count, and the tokens from the closing parenthesis on. -/
abbrev Scan := Except ParseFault (Nat × List Token)

/-- Counts on from inside `nesting` open parentheses, having seen `count` arguments.
`fresh` says that an argument would begin here. -/
def scan (function : String) (position : Nat) :
    (nesting count : Nat) → (fresh : Bool) → List Token → Scan
  | _, _, _, [] => .error (.missingCallClose function position)
  | 0, count, fresh, token :: rest =>
    let begun := if fresh then count + 1 else count
    match token.symbol with
    | .closeParen =>
      if fresh && count != 0 then .error (.emptyArgument function position)
      else .ok (count, token :: rest)
    | .comma =>
      if fresh then .error (.emptyArgument function position)
      else scan function position 0 count true rest
    | .finish => .error (.missingCallClose function position)
    | .openParen => scan function position 1 begun false rest
    | _ => scan function position 0 begun false rest
  | nesting + 1, count, fresh, token :: rest =>
    match token.symbol with
    | .openParen => scan function position (nesting + 2) count fresh rest
    | .closeParen => scan function position nesting count fresh rest
    | .finish => .error (.missingCallClose function position)
    | _ => scan function position (nesting + 1) count fresh rest

/-- The arguments of the call whose opening parenthesis was just taken. -/
def ofTokens (function : String) (position : Nat) (ahead : List Token) : Scan :=
  scan function position 0 0 true ahead

end DerivedTelemetry.ArgumentCount
