import DerivedTelemetry.Json.Basic

/-!
# Reading JSON

The reader takes exactly the texts of RFC 8259, and answers a value together with
the characters that follow it.  It answers none for any other text, for a number
beyond the greatest double, and for an escape that names half of a surrogate pair.

Values nest, and so do the calls; the number of characters of the whole text bounds
how often.
-/

namespace DerivedTelemetry.Json

def skipSpace (chars : List Char) : List Char :=
  chars.dropWhile fun c => c == ' ' || c == '\t' || c == '\n' || c == '\r'

def hexValue? (c : Char) : Option Nat :=
  if c.isDigit then some (c.toNat - '0'.toNat)
  else if 'a' ≤ c ∧ c ≤ 'f' then some (c.toNat - 'a'.toNat + 10)
  else if 'A' ≤ c ∧ c ≤ 'F' then some (c.toNat - 'A'.toNat + 10)
  else none

/-- Four hexadecimal digits. -/
def hexUnit? : List Char → Option (Nat × List Char)
  | a :: b :: c :: d :: rest => do
    let a ← hexValue? a
    let b ← hexValue? b
    let c ← hexValue? c
    let d ← hexValue? d
    some (((a * 16 + b) * 16 + c) * 16 + d, rest)
  | _ => none

/-- The character of one unit, or of a surrogate pair of which it is the first
half. -/
def unicodeEscape? (chars : List Char) : Option (Char × List Char) := do
  let (unit, rest) ← hexUnit? chars
  if unit < 0xd800 ∨ 0xdfff < unit then some (Char.ofNat unit, rest)
  else if 0xdc00 ≤ unit then none
  else match rest with
    | '\\' :: 'u' :: more => do
      let (low, rest) ← hexUnit? more
      if low < 0xdc00 ∨ 0xdfff < low then none
      else some (Char.ofNat (0x10000 + (unit - 0xd800) * 0x400 + (low - 0xdc00)), rest)
    | _ => none

/-- The character after a backslash. -/
def escape? : List Char → Option (Char × List Char)
  | '"' :: rest => some ('"', rest)
  | '\\' :: rest => some ('\\', rest)
  | '/' :: rest => some ('/', rest)
  | 'b' :: rest => some ('\x08', rest)
  | 'f' :: rest => some ('\x0c', rest)
  | 'n' :: rest => some ('\n', rest)
  | 'r' :: rest => some ('\r', rest)
  | 't' :: rest => some ('\t', rest)
  | 'u' :: rest => unicodeEscape? rest
  | _ => none

/-- The rest of a string after its opening quote, put before `taken` in reverse. -/
def stringTail? (taken : List Char) : (fuel : Nat) → List Char → Option (String × List Char)
  | 0, _ => none
  | _ + 1, [] => none
  | fuel + 1, c :: rest =>
    if c = '"' then some (String.ofList taken.reverse, rest)
    else if c = '\\' then do
      let (character, rest) ← escape? rest
      stringTail? (character :: taken) fuel rest
    else if c.toNat < 0x20 then none
    else stringTail? (c :: taken) fuel rest

def string? (chars : List Char) : Option (String × List Char) :=
  match chars with
  | '"' :: rest => stringTail? [] (rest.length + 1) rest
  | _ => none

/-- The digits before the point: no zero in front of another digit. -/
def wholeDigits? (chars : List Char) : Option (List Char × List Char) :=
  match chars with
  | '0' :: rest =>
    match rest with
    | c :: _ => if c.isDigit then none else some (['0'], rest)
    | [] => some (['0'], rest)
  | _ =>
    let digits := chars.takeWhile Char.isDigit
    if digits = [] then none else some (digits, chars.dropWhile Char.isDigit)

/-- The digits after a point, none when there is no point. -/
def fractionDigits? (chars : List Char) : Option (List Char × List Char) :=
  match chars with
  | '.' :: rest =>
    let digits := rest.takeWhile Char.isDigit
    if digits = [] then none else some (digits, rest.dropWhile Char.isDigit)
  | _ => some ([], chars)

/-- A power of ten, zero when none is written, and whether one is. -/
def exponent? (chars : List Char) : Option (Option Int × List Char) :=
  match chars with
  | c :: rest =>
    if c = 'e' ∨ c = 'E' then
      let (negative, rest) := match rest with
        | '-' :: more => (true, more)
        | '+' :: more => (false, more)
        | more => (false, more)
      let digits := rest.takeWhile Char.isDigit
      if digits = [] then none
      else
        let n : Int := Nat.ofDigitChars 10 digits 0
        some (some (if negative then -n else n), rest.dropWhile Char.isDigit)
    else some (none, chars)
  | [] => some (none, chars)

/-- Appends digits to a number as long as it fits a word, and leaves the others. -/
def wordDigits (n : Nat) : List Char → Nat × List Char
  | [] => (n, [])
  | c :: rest =>
    let next := n * 10 + (c.toNat - '0'.toNat)
    if next < twoTo 64 then wordDigits next rest else (n, c :: rest)

/-- The greatest power of ten that doubles reach. -/
def greatestTen : Nat := 308

/-- A double over a power of ten.  A power that doubles do not reach is divided out in
several steps. -/
def overTen? (x : Binary64.Parts) (count : Nat) : Option Binary64.Parts :=
  if count ≤ greatestTen then (Binary64.tenTo? count).bind x.div?
  else if x.significand = 0 then some x
  else
    ((Binary64.tenTo? greatestTen).bind x.div?).bind fun x =>
      overTen? x (count - greatestTen)
termination_by count
decreasing_by
  have : 0 < greatestTen := by decide
  omega

/-- The double of `± significand * 10 ^ power`: both factors are rounded to doubles
first, so the answer need not be the nearest one. -/
def doubleOf? (negative : Bool) (significand : Nat) (power : Int) : Option Binary64.Parts :=
  (Binary64.ofRatio? negative significand 1).bind fun x =>
    if power < 0 then overTen? x (-power).toNat
    else if power ≤ greatestTen then (Binary64.tenTo? power.toNat).bind x.mul?
    else if significand = 0 then some x else none

/-- A number without its sign.  It is whole when neither a point nor an exponent is
written, except for a negative zero, which only a double can be.  A double is made of
the leading digits that fit a word. -/
def magnitude? (negative : Bool) (chars : List Char) : Option (Json × List Char) := do
  let (before, rest) ← wholeDigits? chars
  let (after, rest) ← fractionDigits? rest
  let (exponent, rest) ← exponent? rest
  let digits := Nat.ofDigitChars 10 (before ++ after) 0
  let n : Int := if negative then -digits else digits
  let isWhole := after = [] ∧ exponent = none ∧ ¬(negative ∧ digits = 0)
  if isWhole ∧ IsWord n then some (.whole n, rest)
  else do
    let (n, skipped) := wordDigits 0 before
    let (significand, unread) := wordDigits n after
    let places : Int := after.length - unread.length
    let parts ← doubleOf? negative significand (exponent.getD 0 + skipped.length - places)
    some (.double parts, rest)

def number? (chars : List Char) : Option (Json × List Char) :=
  match chars with
  | '-' :: rest => magnitude? true rest
  | _ => magnitude? false chars

/-- A fixed word with the value it stands for. -/
def word? (word : List Char) (value : Json) (chars : List Char) : Option (Json × List Char) :=
  if word.isPrefixOf chars then some (value, chars.drop word.length) else none

mutual

/-- A value and the characters after it. -/
def value? : (fuel : Nat) → List Char → Option (Json × List Char)
  | 0, _ => none
  | fuel + 1, chars =>
    match skipSpace chars with
    | [] => none
    | c :: rest =>
      if c = '"' then (string? (c :: rest)).map fun p => (.text p.1, p.2)
      else if c = '[' then
        match skipSpace rest with
        | ']' :: rest => some (.array [], rest)
        | rest => (items? fuel rest).map fun p => (.array p.1, p.2)
      else if c = '\x7b' then
        match skipSpace rest with
        | '\x7d' :: rest => some (.object [], rest)
        | rest => (members? fuel rest).map fun p => (.object p.1, p.2)
      else if c = 't' then word? "true".toList (.bool true) (c :: rest)
      else if c = 'f' then word? "false".toList (.bool false) (c :: rest)
      else if c = 'n' then word? "null".toList .null (c :: rest)
      else number? (c :: rest)

/-- The items of an array up to its closing bracket. -/
def items? : (fuel : Nat) → List Char → Option (List Json × List Char)
  | 0, _ => none
  | fuel + 1, chars => do
    let (item, rest) ← value? fuel chars
    match skipSpace rest with
    | ']' :: rest => some ([item], rest)
    | ',' :: rest => do
      let (items, rest) ← items? fuel rest
      some (item :: items, rest)
    | _ => none

/-- The members of an object up to its closing brace. -/
def members? : (fuel : Nat) → List Char → Option ((List (String × Json)) × List Char)
  | 0, _ => none
  | fuel + 1, chars => do
    let (name, rest) ← string? (skipSpace chars)
    match skipSpace rest with
    | ':' :: rest => do
      let (value, rest) ← value? fuel rest
      match skipSpace rest with
      | '\x7d' :: rest => some ([(name, value)], rest)
      | ',' :: rest => do
        let (members, rest) ← members? fuel rest
        some ((name, value) :: members, rest)
      | _ => none
    | _ => none

end

/-- The value that a whole text stands for. -/
def parse? (text : String) : Option Json :=
  let chars := text.toList
  match value? (2 * chars.length + 2) chars with
  | some (value, rest) => if skipSpace rest = [] then some value else none
  | none => none

end DerivedTelemetry.Json
