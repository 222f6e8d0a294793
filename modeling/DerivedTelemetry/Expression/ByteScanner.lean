import DerivedTelemetry.Expression.Lexer

/-!
# Scanning bytes

An expression is kept as bytes.  This scanner does not decode them: it goes from byte to
byte, takes every byte for the character that it would be by itself, and cuts lexemes out of
the text between two offsets.  A text can only be cut where a character begins or where it
ends, and a byte can only be read inside it.  An offset that is used otherwise breaks the
scan off, which is not a fault of the text.
-/

namespace DerivedTelemetry.ByteScanner

/-- The bytes from an offset up to another one. -/
structure Piece where
  start : Nat
  stop : Nat

/-- A piece that a text can be cut into: it lies within the text, and no character reaches
across its start or its end. -/
def Piece.Fits (piece : Piece) (source : String) : Prop :=
  piece.start ≤ piece.stop ∧ piece.stop ≤ source.utf8ByteSize ∧
    (⟨piece.start⟩ : String.Pos.Raw).IsValid source ∧
    (⟨piece.stop⟩ : String.Pos.Raw).IsValid source

instance (piece : Piece) (source : String) : Decidable (piece.Fits source) :=
  inferInstanceAs (Decidable (_ ∧ _ ∧ _ ∧ _))

/-- Why a scan ends before the end of the text. -/
inductive Stop where
  | fault (cause : ParseFault)
  /-- A byte was to be read that is not in the text. -/
  | outside (offset : Nat)
  /-- A piece was to be cut out that does not fit. -/
  | misplaced (piece : Piece)

/-- What a scan comes to, and the pieces that it has cut out or tried to. -/
structure Run (α : Type) where
  pieces : List Piece
  result : Except Stop α

namespace Run

protected def pure {α : Type} (value : α) : Run α := ⟨[], .ok value⟩

protected def bind {α β : Type} (first : Run α) (second : α → Run β) : Run β :=
  match first.result with
  | .ok value => ⟨first.pieces ++ (second value).pieces, (second value).result⟩
  | .error cause => ⟨first.pieces, .error cause⟩

instance : Monad Run where
  pure := Run.pure
  bind := Run.bind

def fault {α : Type} (cause : ParseFault) : Run α := ⟨[], .error (.fault cause)⟩

end Run

/-- Reads the byte at an offset, as the character that it is by itself. -/
def charAt (source : String) (offset : Nat) : Run Char :=
  if h : offset < source.toByteArray.size then
    return Char.ofUInt8 source.toByteArray[offset]
  else ⟨[], .error (.outside offset)⟩

/-- Cuts a piece out of the text. -/
def cut (source : String) (start stop : Nat) : Run String :=
  let piece : Piece := ⟨start, stop⟩
  if h : piece.Fits source then
    ⟨[piece], .ok (String.extract ⟨⟨start⟩, h.2.2.1⟩ ⟨⟨stop⟩, h.2.2.2⟩)⟩
  else ⟨[piece], .error (.misplaced piece)⟩

/-- Whether a mark stands at an offset. -/
def isAt (source : String) (offset : Nat) (mark : Char) : Run Bool :=
  if offset < source.utf8ByteSize then do
    let c ← charAt source offset
    return c == mark
  else return false

/-- The offset of the first byte that does not pass a test, from an offset on. -/
def skipWhile (test : Char → Bool) (source : String) (offset : Nat) : Run Nat :=
  if offset < source.utf8ByteSize then do
    let c ← charAt source offset
    if test c then skipWhile test source (offset + 1) else return offset
  else return offset
termination_by source.utf8ByteSize - offset

/-- A symbol, and the offset of the byte behind the lexeme that it was read from. -/
abbrev Found := Symbol × Nat

def comparison (source : String) (start : Nat) (mark : Char) : Run Found := do
  let followed ← isAt source (start + 1) '='
  match mark, followed with
  | '>', true => return (.greaterEqual, start + 2)
  | '>', false => return (.greater, start + 1)
  | '<', true => return (.lessEqual, start + 2)
  | '<', false => return (.less, start + 1)
  | '=', true => return (.equal, start + 2)
  | '!', true => return (.notEqual, start + 2)
  | _, _ => Run.fault (.loneMark mark start)

/-- A string reaches up to the next quote like the one it opens with. -/
def quoted (source : String) (start : Nat) (quote : Char) : Run Found := do
  let stop ← skipWhile (· != quote) source (start + 1)
  if source.utf8ByteSize ≤ stop then Run.fault (.openString start)
  else do
    let content ← cut source (start + 1) stop
    return (.quoted content, stop + 1)

/-- The number that is written between two offsets. -/
def numeral (source : String) (start stop : Nat) : Run Found := do
  let text ← cut source start stop
  let whole := text.toList.takeWhile Char.isDigit
  let fraction := (text.toList.dropWhile Char.isDigit).tail
  match Lexer.numeral start text.toList whole fraction with
  | .ok symbol => return (symbol, stop)
  | .error cause => Run.fault cause

/-- A number that goes on with a point has digits behind it. -/
def fractional (source : String) (start point : Nat) : Run Found := do
  let stop ← skipWhile Char.isDigit source (point + 1)
  if stop = point + 1 then do
    let text ← cut source start stop
    Run.fault (.malformedNumber text start)
  else numeral source start stop

def number (source : String) (start : Nat) : Run Found := do
  let stop ← skipWhile Char.isDigit source start
  if ← isAt source stop '.' then fractional source start stop
  else numeral source start stop

def name (source : String) (start : Nat) : Run Found := do
  let stop ← skipWhile Lexer.isNamePart source start
  let text ← cut source start stop
  return (.name text, stop)

/-- The character that does not belong is the first one of all that remains. -/
def stray (source : String) (start : Nat) : Run Found := do
  let remainder ← cut source start source.utf8ByteSize
  Run.fault (.strayCharacter (remainder.toList.headD '?') start)

/-- The lexeme that begins at an offset, where the byte `c` was read. -/
def lexeme (source : String) (start : Nat) (c : Char) : Run Found :=
  match c with
  | '+' => return (.plus, start + 1)
  | '-' => return (.minus, start + 1)
  | '*' => return (.star, start + 1)
  | '/' => return (.slash, start + 1)
  | '(' => return (.openParen, start + 1)
  | ')' => return (.closeParen, start + 1)
  | ',' => return (.comma, start + 1)
  | '>' | '<' | '=' | '!' => comparison source start c
  | '"' | '\'' => quoted source start c
  | _ =>
    if c.isDigit || c == '.' then number source start
    else if Lexer.isNameStart c then name source start
    else stray source start

/-- Reads at most `fuel` lexemes and separators, from an offset on. -/
def tokensFrom (source : String) : (fuel offset : Nat) → Run (List Token)
  | 0, _ => return [⟨.finish, source.utf8ByteSize⟩]
  | fuel + 1, offset =>
    if offset < source.utf8ByteSize then do
      let c ← charAt source offset
      if Lexer.isSeparator c then tokensFrom source fuel (offset + 1)
      else do
        let (symbol, next) ← lexeme source offset c
        let tokens ← tokensFrom source fuel next
        return ⟨symbol, offset⟩ :: tokens
    else return [⟨.finish, source.utf8ByteSize⟩]

/-- The tokens of an expression.  Each step passes at least one byte. -/
def tokens (source : String) : Run (List Token) := tokensFrom source source.utf8ByteSize 0

end DerivedTelemetry.ByteScanner
