import DerivedTelemetry.Json.Reader

/-!
# Reading YAML

A settings file in YAML is a mapping, written line by line or in braces.  The reader
answers its members; of members with one name the last counts.  No setting is a list
or a mapping, and none is a text of several lines: what stands indented below a key is
kept as an empty object or text, unless it is a single line with a single value.

Plain words are values of the core schema.  Whole numbers are kept exactly and every
other number as the text it was written with.
-/

namespace DerivedTelemetry.Yaml

/-! ### Plain words -/

/-- Digits without a needless zero in front. -/
def plainDigits? (chars : List Char) : Option Nat :=
  let needlessZero := chars.head? = some '0' ∧ 1 < chars.length
  if chars ≠ [] ∧ chars.all Char.isDigit ∧ ¬needlessZero then
    some (Nat.ofDigitChars 10 chars 0)
  else none

def basedValue? (base : Nat) (chars : List Char) : Option Nat := do
  let digits ← chars.mapM Json.hexValue?
  if digits ≠ [] ∧ digits.all (· < base) then some (digits.foldl (fun n d => n * base + d) 0)
  else none

def magnitude? (chars : List Char) : Option Nat :=
  match chars with
  | '0' :: 'x' :: digits => basedValue? 16 digits
  | '0' :: 'o' :: digits => basedValue? 8 digits
  | '0' :: 'b' :: digits => basedValue? 2 digits
  | _ => plainDigits? chars

def whole? (chars : List Char) : Option Int :=
  match chars with
  | '-' :: rest => (magnitude? rest).map fun n => -(n : Int)
  | '+' :: rest => (magnitude? rest).map Int.ofNat
  | _ => (magnitude? chars).map Int.ofNat

/-- The value of a plain word. -/
def plainValue (chars : List Char) : Json :=
  let word := String.ofList chars
  if ["", "~", "null", "Null", "NULL"].contains word then .null
  else if ["true", "True", "TRUE"].contains word then .bool true
  else if ["false", "False", "FALSE"].contains word then .bool false
  else match whole? chars with
    | some n => if Json.IsWord n then .whole n else .text word
    | none => .text word

/-! ### Quoted strings -/

/-- The character after a backslash in double quotes. -/
def escape? : List Char → Option (Char × List Char)
  | '0' :: rest => some ('\x00', rest)
  | ' ' :: rest => some (' ', rest)
  | rest => Json.escape? rest

/-- The rest of a string in double quotes, put before `taken` in reverse. -/
def doubleTail? (taken : List Char) : (fuel : Nat) → List Char → Option (String × List Char)
  | 0, _ => none
  | _ + 1, [] => none
  | fuel + 1, c :: rest =>
    if c = '"' then some (String.ofList taken.reverse, rest)
    else if c = '\\' then do
      let (character, rest) ← escape? rest
      doubleTail? (character :: taken) fuel rest
    else doubleTail? (c :: taken) fuel rest

/-- The rest of a string in single quotes, where a quote is written twice. -/
def singleTail? (taken : List Char) : List Char → Option (String × List Char)
  | [] => none
  | '\'' :: '\'' :: rest => singleTail? ('\'' :: taken) rest
  | '\'' :: rest => some (String.ofList taken.reverse, rest)
  | c :: rest => singleTail? (c :: taken) rest

def quoted? : List Char → Option (String × List Char)
  | '"' :: rest => doubleTail? [] (rest.length + 1) rest
  | '\'' :: rest => singleTail? [] rest
  | _ => none

def isQuote (c : Char) : Bool := c == '"' || c == '\''

/-! ### Values in brackets and braces -/

def isSpace (c : Char) : Bool := c == ' ' || c == '\t'

def isGap (c : Char) : Bool := isSpace c || c == '\n' || c == '\r'

def skipGap (chars : List Char) : List Char := chars.dropWhile isGap

def trimRight (chars : List Char) : List Char := (chars.reverse.dropWhile isGap).reverse

def endsFlowWord (c : Char) : Bool :=
  c == ',' || c == '[' || c == ']' || c == '\x7b' || c == '\x7d' || c == ':' || c == '\n'

/-- Characters that no plain word begins with. -/
def isIndicator (c : Char) : Bool :=
  c == '&' || c == '*' || c == '!' || c == '|' || c == '>' || c == '%' || c == '@' ||
    c.toNat == 0x60

/-- A quoted or a plain word inside brackets. -/
def flowWord? (chars : List Char) : Option (Json × List Char) :=
  match chars with
  | [] => none
  | c :: _ =>
    if isQuote c then (quoted? chars).map fun p => (.text p.1, p.2)
    else if isIndicator c then none
    else
      let word := chars.takeWhile fun c => !endsFlowWord c
      if trimRight word = [] then none
      else some (plainValue (trimRight word), chars.drop word.length)

mutual

def flowValue? : (fuel : Nat) → List Char → Option (Json × List Char)
  | 0, _ => none
  | fuel + 1, chars =>
    match chars with
    | '[' :: rest => (flowItems? fuel rest).map fun p => (.array p.1, p.2)
    | '\x7b' :: rest => (flowMembers? fuel rest).map fun p => (.object p.1, p.2)
    | _ => flowWord? chars

def flowItems? : (fuel : Nat) → List Char → Option (List Json × List Char)
  | 0, _ => none
  | fuel + 1, chars =>
    match skipGap chars with
    | ']' :: rest => some ([], rest)
    | rest => do
      let (item, rest) ← flowValue? fuel rest
      match skipGap rest with
      | ']' :: rest => some ([item], rest)
      | ',' :: rest => do
        let (items, rest) ← flowItems? fuel rest
        some (item :: items, rest)
      | _ => none

def flowMembers? : (fuel : Nat) → List Char → Option (List (String × Json) × List Char)
  | 0, _ => none
  | fuel + 1, chars =>
    match skipGap chars with
    | '\x7d' :: rest => some ([], rest)
    | start => do
      let (_, rest) ← flowWord? start
      let written := trimRight (start.take (start.length - rest.length))
      let key := match quoted? written with
        | some (key, _) => key
        | none => String.ofList written
      let (value, rest) ← match skipGap rest with
        | ':' :: rest =>
          match skipGap rest with
          | ',' :: _ | '\x7d' :: _ => some (Json.null, rest)
          | rest => flowValue? fuel rest
        | rest => some (Json.null, rest)
      match skipGap rest with
      | '\x7d' :: rest => some ([(key, value)], rest)
      | ',' :: rest => do
        let (members, rest) ← flowMembers? fuel rest
        some ((key, value) :: members, rest)
      | _ => none

end

/-! ### Lines -/

/-- A line that is not blank: how far it is indented, and what it says. -/
structure Line where
  indent : Nat
  content : List Char

/-- What may follow a value on its line: nothing, or a comment after a space. -/
def isOver (chars : List Char) : Bool :=
  match chars with
  | [] => true
  | c :: _ => isGap c && (match skipGap chars with
    | [] => true
    | d :: _ => d == '#')

/-- Whether a mark stands by itself: at the end of its line or before a gap. -/
def standsAlone (afterMark : List Char) : Bool := (afterMark.head?.map isGap).getD true

/-- A plain word up to a comment. -/
def beforeComment : List Char → List Char
  | [] => []
  | c :: rest => if isOver (c :: rest) then [] else c :: beforeComment rest

/-- Whether a plain word contains what only a mapping may contain. -/
def hasMappingMark : List Char → Bool
  | [] => false
  | ':' :: rest => standsAlone rest || hasMappingMark rest
  | _ :: rest => hasMappingMark rest

/-- The value on one line, or none when there is no such value. -/
def inlineValue? (chars : List Char) : Option Json :=
  match chars with
  | [] => some .null
  | c :: rest =>
    if c = '#' then some .null
    else if isQuote c then
      (quoted? chars).bind fun (value, rest) => if isOver rest then some (.text value) else none
    else if c = '[' ∨ c = '\x7b' then
      (flowValue? (chars.length + 1) chars).bind fun (value, rest) =>
        if isOver rest then some value else none
    else if c = '|' ∨ c = '>' then some (.text "")
    else if isIndicator c ∨ c = ',' ∨ c = ']' ∨ c = '\x7d' then none
    else if (c = '-' ∨ c = '?') ∧ standsAlone rest then none
    else
      let word := trimRight (beforeComment chars)
      if hasMappingMark word then none else some (plainValue word)

/-- The characters before the first colon that stands by itself, and those from it
on. -/
def upToColon : List Char → List Char × List Char
  | [] => ([], [])
  | c :: rest =>
    if c = ':' ∧ standsAlone rest then ([], c :: rest)
    else
      let (word, after) := upToColon rest
      (c :: word, after)

/-- The key of an entry, quoted or plain, and what follows it. -/
def key? (chars : List Char) : Option (String × List Char) :=
  match chars with
  | [] => none
  | c :: _ =>
    if isQuote c then (quoted? chars).map fun p => (p.1, p.2.dropWhile isSpace)
    else if isIndicator c ∨ c = '[' ∨ c = '\x7b' ∨ c = '#' ∨ c = ',' then none
    else
      let (word, rest) := upToColon chars
      some (String.ofList (trimRight word), rest)

/-- The key of an entry, and what follows its colon. -/
def splitKey? (chars : List Char) : Option (String × List Char) :=
  match key? chars with
  | some (key, ':' :: rest) => if standsAlone rest then some (key, rest) else none
  | _ => none

/-- A line without the blanks at its ends, or nothing for a blank line or a comment.
A tab must not indent it. -/
def lineOf? (chars : List Char) : Option (Option Line) :=
  let indent := (chars.takeWhile (· == ' ')).length
  match trimRight (chars.drop indent) with
  | [] => some none
  | '#' :: _ => some none
  | '\t' :: _ => none
  | content => some (some ⟨indent, content⟩)

/-- The lines of a text that are not blank and no comment. -/
def contentLines? (text : List Char) : Option (List Line) :=
  ((text.splitOn '\n').mapM lineOf?).map fun lines => lines.filterMap id

/-- Whether a line begins an item of a sequence. -/
def isItem (line : Line) : Bool :=
  match line.content with
  | '-' :: rest => standsAlone rest
  | _ => false

/-- The lines that belong to the entry before them: those further in, and items. -/
def belongs (indent : Nat) (afterNothing : Bool) (line : Line) : Bool :=
  indent < line.indent || (afterNothing && line.indent == indent && isItem line)

/-- The value of an entry that goes on over further lines.  A single line may be the
whole value.  After a value on the line of its key, further lines continue that value,
and then they must not look like entries. -/
def continued? (value : Json) (blockText : Bool) (more : List Line) : Option Json :=
  if more.isEmpty then some value
  else if blockText then some value
  else match value with
    | .null => match more with
      | [line] => some ((inlineValue? line.content).getD (.object []))
      | _ => some (.object [])
    | value =>
      if more.any fun line => hasMappingMark (beforeComment line.content) then none
      else match value with
        | .array _ | .object _ => none
        | _ => some (.text "")

/-- The entries of a mapping whose lines are indented by `indent`. -/
def entries? (indent : Nat) : (fuel : Nat) → List Line → Option (List (String × Json))
  | 0, _ => none
  | _ + 1, [] => some []
  | fuel + 1, line :: rest =>
    if line.indent ≠ indent then none
    else do
      let (key, written) ← splitKey? line.content
      let written := written.dropWhile isSpace
      let value ← inlineValue? written
      let empty := written = [] ∨ written.head? = some '#'
      let blockText := written.head? = some '|' ∨ written.head? = some '>'
      let more := rest.takeWhile (belongs indent empty)
      let value ← continued? value blockText more
      let others ← entries? indent fuel (rest.drop more.length)
      some ((key, value) :: others)

/-- Whether a line separates documents. -/
def isMarker (marker : String) (line : Line) : Bool :=
  line.indent == 0 && line.content == marker.toList

/-- The members of the mapping that a document is. -/
def read? (text : String) : Option (List (String × Json)) := do
  let lines ← contentLines? text.toList
  let opened := match lines with
    | line :: rest => if isMarker "---" line then rest else lines
    | [] => []
  let body := opened.takeWhile fun line => !isMarker "..." line
  match body with
  | [] => some []
  | line :: _ =>
    if line.content.head? = some '\x7b' then
      let joined := body.flatMap fun line => line.content ++ ['\n']
      match flowValue? (joined.length + 1) joined with
      | some (.object members, rest) => if skipGap rest = [] then some members else none
      | _ => none
    else entries? line.indent (body.length + 1) body

end DerivedTelemetry.Yaml
