import DerivedTelemetry.Fault

/-!
# From text to tokens

An expression is read from the left, one lexeme at a time.  Four characters may
stand between lexemes; every other character belongs to exactly one of them.
Characters are taken whole and offsets count the bytes of what lies to the left,
so an offset never falls inside a character.

A number needs a digit after its point, and one in front of it is optional.  It
must be representable, and one with a nonzero digit must not read as zero.
-/

namespace DerivedTelemetry.Lexer

/-- The number of bytes that characters take up. -/
def byteCount : List Char → Nat
  | [] => 0
  | c :: rest => c.utf8Size + byteCount rest

/-- What may stand between lexemes. -/
def isSeparator (c : Char) : Bool := c == ' ' || c == '\t' || c == '\r' || c == '\n'

def isNameStart (c : Char) : Bool := c.isAlpha || c == '_'

def isNamePart (c : Char) : Bool := c.isAlphanum || c == '_'

/-- A symbol, the characters it was read from, and those that follow. -/
structure Lexeme where
  symbol : Symbol
  text : List Char
  rest : List Char

/-- The symbol of a comparison or a lone mark: which one depends on whether an
equals sign follows. -/
def comparison (position : Nat) (mark : Char) (rest : List Char) :
    Except ParseFault Lexeme :=
  match mark, rest with
  | '>', '=' :: after => .ok ⟨.greaterEqual, ['>', '='], after⟩
  | '<', '=' :: after => .ok ⟨.lessEqual, ['<', '='], after⟩
  | '=', '=' :: after => .ok ⟨.equal, ['=', '='], after⟩
  | '!', '=' :: after => .ok ⟨.notEqual, ['!', '='], after⟩
  | '>', _ => .ok ⟨.greater, ['>'], rest⟩
  | '<', _ => .ok ⟨.less, ['<'], rest⟩
  | _, _ => .error (.loneMark mark position)

/-- A string reaches up to the next quote like the one it opens with. -/
def quoted (position : Nat) (quote : Char) (rest : List Char) : Except ParseFault Lexeme :=
  let content := rest.takeWhile (· != quote)
  match rest.dropWhile (· != quote) with
  | [] => .error (.openString position)
  | close :: after =>
    .ok ⟨.quoted (String.ofList content), quote :: content ++ [close], after⟩

/-- The symbol of a number with given digits, or what is wrong with it. -/
def numeral (position : Nat) (text whole fraction : List Char) : Except ParseFault Symbol :=
  match Decimal.ofDigits whole fraction with
  | .error cause => .error (.invalidNumber (String.ofList text) position cause)
  | .ok value =>
    if value.isZero && text.any (fun c => '1' ≤ c && c ≤ '9') then
      .error (.vanishingNumber (String.ofList text) position)
    else .ok (.number value)

/-- A number begins with a digit or a point. -/
def number (position : Nat) (chars : List Char) : Except ParseFault Lexeme :=
  let whole := chars.takeWhile Char.isDigit
  match chars.dropWhile Char.isDigit with
  | '.' :: rest =>
    let fraction := rest.takeWhile Char.isDigit
    let text := whole ++ '.' :: fraction
    if fraction = [] then .error (.malformedNumber (String.ofList text) position)
    else (numeral position text whole fraction).map fun symbol =>
      ⟨symbol, text, rest.dropWhile Char.isDigit⟩
  | rest => (numeral position whole whole []).map fun symbol => ⟨symbol, whole, rest⟩

/-- The lexeme that begins with the character `c`, followed by `rest`. -/
def lexeme (position : Nat) (c : Char) (rest : List Char) : Except ParseFault Lexeme :=
  match c with
  | '+' => .ok ⟨.plus, [c], rest⟩
  | '-' => .ok ⟨.minus, [c], rest⟩
  | '*' => .ok ⟨.star, [c], rest⟩
  | '/' => .ok ⟨.slash, [c], rest⟩
  | '(' => .ok ⟨.openParen, [c], rest⟩
  | ')' => .ok ⟨.closeParen, [c], rest⟩
  | ',' => .ok ⟨.comma, [c], rest⟩
  | '>' | '<' | '=' | '!' => comparison position c rest
  | '"' | '\'' => quoted position c rest
  | _ =>
    if c.isDigit || c == '.' then number position (c :: rest)
    else if isNameStart c then
      let text := c :: rest.takeWhile isNamePart
      .ok ⟨.name (String.ofList text), text, rest.dropWhile isNamePart⟩
    else .error (.strayCharacter c position)

theorem text_append_rest_of_comparison {position : Nat} {mark : Char} {rest : List Char}
    {next : Lexeme} (h : comparison position mark rest = .ok next) :
    next.text ++ next.rest = mark :: rest := by
  unfold comparison at h
  split at h <;> cases h <;> rfl

theorem text_append_rest_of_quoted {position : Nat} {quote : Char} {rest : List Char}
    {next : Lexeme} (h : quoted position quote rest = .ok next) :
    next.text ++ next.rest = quote :: rest := by
  unfold quoted at h
  split at h
  · cases h
  · rename_i close after reached
    cases h
    have whole := List.takeWhile_append_dropWhile (p := (· != quote)) (l := rest)
    rw [reached] at whole
    simpa using whole

private theorem exists_of_map_eq_ok {α β : Type} {f : α → β} {result : Except ParseFault α}
    {value : β} (h : result.map f = .ok value) : ∃ given, f given = value := by
  cases result with
  | error cause => cases h
  | ok given =>
    cases h
    exact ⟨given, rfl⟩

theorem text_append_rest_of_number {position : Nat} {chars : List Char} {next : Lexeme}
    (h : number position chars = .ok next) : next.text ++ next.rest = chars := by
  have whole := List.takeWhile_append_dropWhile (p := Char.isDigit) (l := chars)
  unfold number at h
  split at h
  · rename_i rest reached
    rw [reached] at whole
    have after := List.takeWhile_append_dropWhile (p := Char.isDigit) (l := rest)
    dsimp only at h
    split at h
    · cases h
    · obtain ⟨symbol, rfl⟩ := exists_of_map_eq_ok h
      simpa [after] using whole
  · obtain ⟨symbol, rfl⟩ := exists_of_map_eq_ok h
    exact whole

/-- A lexeme is cut off the front of what is read, and nothing is lost. -/
theorem text_append_rest {position : Nat} {c : Char} {rest : List Char} {next : Lexeme}
    (h : lexeme position c rest = .ok next) : next.text ++ next.rest = c :: rest := by
  unfold lexeme at h
  split at h
  case h_8 | h_9 | h_10 | h_11 => exact text_append_rest_of_comparison h
  case h_12 | h_13 => exact text_append_rest_of_quoted h
  case h_14 =>
    split at h
    · exact text_append_rest_of_number h
    · split at h
      · cases h
        simp
      · cases h
  all_goals cases h; rfl

/-- Reads at most `fuel` lexemes and separators; `position` is the offset of the
first of `chars`.  The last token stands at the end of the text. -/
def tokensFrom (position : Nat) : (fuel : Nat) → List Char → Except ParseFault (List Token)
  | 0, _ => .ok [⟨.finish, position⟩]
  | _ + 1, [] => .ok [⟨.finish, position⟩]
  | fuel + 1, c :: rest =>
    if isSeparator c then tokensFrom (position + c.utf8Size) fuel rest
    else do
      let next ← lexeme position c rest
      let tokens ← tokensFrom (position + byteCount next.text) fuel next.rest
      return ⟨next.symbol, position⟩ :: tokens

/-- The tokens of an expression.  Each lexeme takes at least one character, so the
number of characters bounds the number of steps. -/
def tokens (chars : List Char) : Except ParseFault (List Token) :=
  tokensFrom 0 chars.length chars

end DerivedTelemetry.Lexer
