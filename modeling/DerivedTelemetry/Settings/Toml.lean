import DerivedTelemetry.Json.Reader

/-!
# Reading TOML

A settings file in TOML is a list of keys with their values, in the main table or
under the header of another one.  The reader answers the members of the main table.
A key that is given twice makes the file invalid, and so does anything that is not
TOML.  Every value stands on the line of its key, except that an array may go on over
further lines; a string may not.

Of values only whole numbers are kept exactly.  Dates, and numbers with a fraction or
an exponent, are kept as the text they were written with: no setting is of such a
kind.
-/

namespace DerivedTelemetry.Toml

def isSpace (c : Char) : Bool := c == ' ' || c == '\t'

def skipSpace (chars : List Char) : List Char := chars.dropWhile isSpace

/-- A comment reaches up to the end of its line. -/
def skipComment : List Char → List Char
  | '#' :: rest => rest.dropWhile (· != '\n')
  | chars => chars

/-- The end of a line, after spaces and a comment.  The last line needs none. -/
def endOfLine? (chars : List Char) : Option (List Char) :=
  match skipComment (skipSpace chars) with
  | [] => some []
  | '\n' :: rest => some rest
  | '\r' :: '\n' :: rest => some rest
  | _ => none

/-- Spaces, ends of lines and comments, as between the items of an array. -/
def skipLines : (fuel : Nat) → List Char → List Char
  | 0, chars => chars
  | fuel + 1, chars =>
    match skipComment (skipSpace chars) with
    | '\n' :: rest => skipLines fuel rest
    | '\r' :: '\n' :: rest => skipLines fuel rest
    | rest => rest

/-! ### Strings and keys -/

/-- A Unicode escape with a fixed number of digits. -/
def codePoint? (width : Nat) (chars : List Char) : Option (Char × List Char) := do
  let digits ← (chars.take width).mapM Json.hexValue?
  let code := digits.foldl (fun n d => n * 16 + d) 0
  if digits.length = width ∧ Nat.isValidChar code then
    some (Char.ofNat code, chars.drop width)
  else none

/-- The character after a backslash. -/
def escape? : List Char → Option (Char × List Char)
  | 'b' :: rest => some ('\x08', rest)
  | 't' :: rest => some ('\t', rest)
  | 'n' :: rest => some ('\n', rest)
  | 'f' :: rest => some ('\x0c', rest)
  | 'r' :: rest => some ('\r', rest)
  | '"' :: rest => some ('"', rest)
  | '\\' :: rest => some ('\\', rest)
  | 'u' :: rest => codePoint? 4 rest
  | 'U' :: rest => codePoint? 8 rest
  | _ => none

/-- The rest of a basic string, put before `taken` in reverse. -/
def basicTail? (taken : List Char) : (fuel : Nat) → List Char → Option (String × List Char)
  | 0, _ => none
  | _ + 1, [] => none
  | fuel + 1, c :: rest =>
    if c = '"' then some (String.ofList taken.reverse, rest)
    else if c = '\\' then do
      let (character, rest) ← escape? rest
      basicTail? (character :: taken) fuel rest
    else if c = '\n' then none
    else basicTail? (c :: taken) fuel rest

/-- The rest of a literal string, in which nothing is escaped. -/
def literalTail? (chars : List Char) : Option (String × List Char) :=
  let content := chars.takeWhile fun c => c != '\'' && c != '\n'
  match chars.drop content.length with
  | '\'' :: rest => some (String.ofList content, rest)
  | _ => none

/-- A string of either kind on one line. -/
def string? : List Char → Option (String × List Char)
  | '"' :: rest => basicTail? [] (rest.length + 1) rest
  | '\'' :: rest => literalTail? rest
  | _ => none

def isKeyPart (c : Char) : Bool := c.isAlphanum || c == '_' || c == '-'

/-- One part of a key, bare or quoted. -/
def keyPart? (chars : List Char) : Option (String × List Char) :=
  match chars with
  | '"' :: _ | '\'' :: _ => string? chars
  | _ =>
    let part := chars.takeWhile isKeyPart
    if part = [] then none else some (String.ofList part, chars.dropWhile isKeyPart)

/-- A key of one or more parts with points in between. -/
def key? : (fuel : Nat) → List Char → Option (List String × List Char)
  | 0, _ => none
  | fuel + 1, chars => do
    let (part, rest) ← keyPart? (skipSpace chars)
    match skipSpace rest with
    | '.' :: rest => do
      let (parts, rest) ← key? fuel rest
      some (part :: parts, rest)
    | rest => some ([part], rest)

/-! ### Numbers and dates -/

/-- Digits with single underscores between them. -/
def grouped? (isDigit : Char → Bool) (chars : List Char) : Option (List Char) :=
  let digits := chars.filter (· != '_')
  let wellPlaced := (chars.zip (chars.drop 1)).all fun (a, b) => isDigit a || isDigit b
  if digits ≠ [] ∧ digits.all isDigit ∧ wellPlaced ∧
      chars.head? ≠ some '_' ∧ chars.getLast? ≠ some '_' then some digits
  else none

/-- Digits without a needless zero in front. -/
def plainDigits? (chars : List Char) : Option Nat := do
  let digits ← grouped? Char.isDigit chars
  if digits.head? = some '0' ∧ 1 < digits.length then none
  else some (Nat.ofDigitChars 10 digits 0)

def hexDigit (c : Char) : Bool := (Json.hexValue? c).isSome

/-- Digits of a base that a letter names. -/
def basedDigits? (chars : List Char) : Option Nat :=
  match chars with
  | '0' :: 'x' :: digits =>
    (grouped? hexDigit digits).map fun ds =>
      ds.foldl (fun n c => n * 16 + (Json.hexValue? c).getD 0) 0
  | '0' :: 'o' :: digits =>
    (grouped? (fun c => '0' ≤ c && c ≤ '7') digits).map fun ds => Nat.ofDigitChars 8 ds 0
  | '0' :: 'b' :: digits =>
    (grouped? (fun c => c == '0' || c == '1') digits).map fun ds => Nat.ofDigitChars 2 ds 0
  | _ => none

/-- The sign of a number, and what follows it. -/
def splitSign : List Char → Bool × List Char
  | '-' :: rest => (true, rest)
  | '+' :: rest => (false, rest)
  | chars => (false, chars)

/-- A whole number, which has to fit 64 bits. -/
def whole? (chars : List Char) : Option Int := do
  let (negative, digits) := splitSign chars
  let n ← (plainDigits? digits).or (basedDigits? chars)
  let value : Int := if negative then -n else n
  if -(twoTo 63 : Int) ≤ value ∧ value < twoTo 63 then some value else none

/-- A number with a fraction or an exponent, or one of the words for no number. -/
def isFloat (chars : List Char) : Bool :=
  let (_, body) := splitSign chars
  let before := body.takeWhile fun c => c.isDigit || c == '_'
  let afterWhole := body.drop before.length
  let (fractionOk, afterFraction) := match afterWhole with
    | '.' :: rest =>
      let digits := rest.takeWhile fun c => c.isDigit || c == '_'
      ((grouped? Char.isDigit digits).isSome, rest.drop digits.length)
    | rest => (true, rest)
  let exponentOk := match afterFraction with
    | [] => afterWhole != []
    | c :: rest =>
      (c == 'e' || c == 'E') && (grouped? Char.isDigit (splitSign rest).2).isSome
  body == "inf".toList || body == "nan".toList ||
    ((plainDigits? before).isSome && fractionOk && exponentOk)

/-- Whether characters follow a pattern, in which `0` stands for any digit. -/
def follows (pattern : String) (chars : List Char) : Bool :=
  pattern.toList.length ≤ chars.length &&
    (pattern.toList.zip chars).all fun (p, c) => if p == '0' then c.isDigit else p == c

/-- A date or a time, by the shape of its beginning. -/
def isDateTime (chars : List Char) : Bool :=
  follows "0000-00-00" chars || follows "00:00:00" chars

/-! ### Values -/

def endsScalar (c : Char) : Bool :=
  c == ' ' || c == '\t' || c == '\r' || c == '\n' || c == ',' || c == ']' || c == '\x7d' ||
    c == '#'

/-- A number, a truth value or a date. -/
def scalar? (chars : List Char) : Option (Json × List Char) :=
  let word := chars.takeWhile fun c => !endsScalar c
  let rest := chars.dropWhile fun c => !endsScalar c
  if word = "true".toList then some (.bool true, rest)
  else if word = "false".toList then some (.bool false, rest)
  else match whole? word with
    | some n => some (.whole n, rest)
    | none =>
      if isFloat word || isDateTime word then some (.text (String.ofList word), rest)
      else none

mutual

def value? : (fuel : Nat) → List Char → Option (Json × List Char)
  | 0, _ => none
  | fuel + 1, chars =>
    match chars with
    | '[' :: rest => (items? fuel rest).map fun p => (.array p.1, p.2)
    | '\x7b' :: rest =>
      match skipSpace rest with
      | '\x7d' :: rest => some (.object [], rest)
      | rest => (inlineMembers? fuel rest).map fun p => (.object p.1, p.2)
    | c :: _ =>
      if c = '"' ∨ c = '\'' then (string? chars).map fun p => (.text p.1, p.2)
      else scalar? chars
    | [] => none

/-- The items of an array up to its closing bracket; a comma may follow the last. -/
def items? : (fuel : Nat) → List Char → Option (List Json × List Char)
  | 0, _ => none
  | fuel + 1, chars =>
    match skipLines chars.length chars with
    | ']' :: rest => some ([], rest)
    | rest => do
      let (item, rest) ← value? fuel rest
      match skipLines rest.length rest with
      | ']' :: rest => some ([item], rest)
      | ',' :: rest => do
        let (items, rest) ← items? fuel rest
        some (item :: items, rest)
      | _ => none

/-- The members of a table that is written on one line. -/
def inlineMembers? : (fuel : Nat) → List Char → Option (List (String × Json) × List Char)
  | 0, _ => none
  | fuel + 1, chars => do
    let (key, rest) ← keyPart? (skipSpace chars)
    match skipSpace rest with
    | '=' :: rest => do
      let (value, rest) ← value? fuel (skipSpace rest)
      match skipSpace rest with
      | '\x7d' :: rest => some ([(key, value)], rest)
      | ',' :: rest => do
        let (members, rest) ← inlineMembers? fuel rest
        some ((key, value) :: members, rest)
      | _ => none
    | _ => none

end

/-! ### Documents -/

/-- A key with its value, or the header of a table. -/
inductive Line where
  | header (key : List String)
  | entry (key : List String) (value : Json)

/-- The header after its first bracket. -/
def header? (chars : List Char) : Option (Line × List Char) := do
  let (double, rest) := match chars with
    | '[' :: rest => (true, rest)
    | rest => (false, rest)
  let (key, rest) ← key? (rest.length + 1) rest
  match double, rest with
  | false, ']' :: rest => some (.header key, rest)
  | true, ']' :: ']' :: rest => some (.header key, rest)
  | _, _ => none

def line? (chars : List Char) : Option (Line × List Char) :=
  match chars with
  | '[' :: rest => header? rest
  | _ => do
    let (key, rest) ← key? (chars.length + 1) chars
    match rest with
    | '=' :: rest => do
      let (value, rest) ← value? (rest.length + 1) (skipSpace rest)
      some (.entry key value, rest)
    | _ => none

/-- The lines of a document. -/
def lines? : (fuel : Nat) → List Char → Option (List Line)
  | 0, _ => none
  | fuel + 1, chars =>
    match skipLines chars.length chars with
    | [] => some []
    | rest => do
      let (line, rest) ← line? rest
      let lines ← lines? fuel (← endOfLine? rest)
      some (line :: lines)

/-- The full key of every line, and the value of those that have one. -/
def located (table : List String) : List Line → List (List String × Option Json)
  | [] => []
  | .header key :: rest => (key, none) :: located key rest
  | .entry key value :: rest => (table ++ key, some value) :: located table rest

/-- Whether two lines cannot stand together: they define the same key, or one defines
a key inside the value of the other. -/
def clashes (a b : List String × Option Json) : Bool :=
  a.1 == b.1 || (a.2.isSome && a.1.isPrefixOf b.1) || (b.2.isSome && b.1.isPrefixOf a.1)

def hasClash : List (List String × Option Json) → Bool
  | [] => false
  | entry :: rest => rest.any (clashes entry) || hasClash rest

/-- The main table.  What stands in another table is seen only as an object under the
name of that table. -/
def mainTable (entries : List (List String × Option Json)) : List (String × Json) :=
  entries.filterMap fun
    | ([name], some value) => some (name, value)
    | (name :: _, _) => some (name, .object [])
    | ([], _) => none

/-- The members of the main table of a document. -/
def read? (text : String) : Option (List (String × Json)) := do
  let chars := text.toList
  let entries := located [] (← lines? (chars.length + 1) chars)
  if hasClash entries then none else some (mainTable entries)

end DerivedTelemetry.Toml
