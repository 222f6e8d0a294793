import DerivedTelemetry.Decimal.Text
import DerivedTelemetry.Proofs.Literals

/-!
# Written tokens are read back

Expressions are put together by other programs, which write names, strings and the numbers
they have computed with.  As long as something stands between them, they come out as they
were: the scale of a number is not lost, and what a string holds is not looked into.
-/

namespace DerivedTelemetry

/-! ### Numbers in digits -/

namespace Decimal

variable {width n : Nat} {number : Decimal}

theorem isDigit_of_mem_padded : ∀ c ∈ padded width n, c.isDigit = true := by
  intro c hc
  rcases List.mem_append.mp hc with hzero | hdigit
  · rw [List.eq_of_mem_replicate hzero]
    rfl
  · exact Nat.isDigit_of_mem_toDigits (by decide) (by decide) hdigit

theorem length_padded (hwidth : 0 < width) (h : n < tenTo width) :
    (padded width n).length = width := by
  have hdigits : (Nat.toDigits 10 n).length ≤ width :=
    (Nat.length_toDigits_le_iff (by decide) hwidth).mpr h
  rw [padded]
  simp only [List.length_append, List.length_replicate]
  omega

/-- Zeros in front of a number change nothing about it. -/
theorem ofDigitChars_padded (width n : Nat) : Nat.ofDigitChars 10 (padded width n) 0 = n := by
  rw [padded, Nat.ofDigitChars_append, Nat.ofDigitChars_replicate_zero, Nat.mul_zero,
    Nat.ofDigitChars_ten_toDigits]

/-- The digits after the point, of which there may be none. -/
def fractionDigits (number : Decimal) : List Char :=
  if number.scale = 0 then [] else padded number.scale (number.mantissa % tenTo number.scale)

theorem length_fractionDigits (number : Decimal) :
    number.fractionDigits.length = number.scale := by
  rw [fractionDigits]
  split
  · rename_i hscale
    rw [hscale, List.length_nil]
  · rename_i hscale
    exact length_padded (Nat.pos_of_ne_zero hscale) (Nat.mod_lt _ (tenTo_pos _))

/-- A number as it is written, without its sign. -/
def literal (number : Decimal) : Literal where
  whole := Nat.toDigits 10 (number.mantissa / tenTo number.scale)
  fraction := number.fractionDigits
  digits := by
    intro c hc
    rcases List.mem_append.mp hc with hwhole | hfraction
    · exact Nat.isDigit_of_mem_toDigits (by decide) (by decide) hwhole
    · rw [fractionDigits] at hfraction
      split at hfraction
      · simp at hfraction
      · exact isDigit_of_mem_padded c hfraction
  ne_nil := by simp [Nat.toDigits_ne_nil]

theorem text_literal (h : number.negative = false) : number.literal.text = number.toChars := by
  have hnone : number.fractionDigits = [] ↔ number.scale = 0 := by
    rw [← List.length_eq_zero_iff, length_fractionDigits]
  rw [Literal.text, toChars, h, if_neg Bool.false_ne_true, unsignedChars]
  simp only [literal, hnone]
  split
  · rfl
  · rename_i hscale
    rw [fractionDigits, if_neg hscale]

theorem length_fraction_literal (number : Decimal) :
    number.literal.fraction.length = number.scale := length_fractionDigits number

/-- Without the point the digits are those of the mantissa. -/
theorem ofDigitChars_literal (number : Decimal) :
    Nat.ofDigitChars 10 (number.literal.whole ++ number.literal.fraction) 0 = number.mantissa := by
  rw [Nat.ofDigitChars_append, literal, Nat.ofDigitChars_ten_toDigits,
    Nat.ofDigitChars_eq_ofDigitChars_zero, length_fractionDigits]
  have hrest : Nat.ofDigitChars 10 number.fractionDigits 0 =
      number.mantissa % tenTo number.scale := by
    rw [fractionDigits]
    split
    · rename_i hscale
      rw [hscale, tenTo_zero, Nat.mod_one, Nat.ofDigitChars_nil]
    · exact ofDigitChars_padded _ _
  rw [hrest]
  exact Nat.div_add_mod number.mantissa (tenTo number.scale)

theorem value_literal (h : number.negative = false) : number.literal.value = number.value := by
  obtain ⟨negative, mantissa, scale⟩ := number
  obtain rfl : negative = false := h
  rw [value_of_positive, Literal.value, ofDigitChars_literal, length_fraction_literal]

/-- What has been written is read back with its mantissa and its scale. -/
theorem ofDigits_literal (hnumber : number.WellFormed) (h : number.negative = false) :
    ofDigits number.literal.whole number.literal.fraction = .ok number := by
  have hscale : number.literal.fraction.length ≤ maxScale := by
    rw [length_fraction_literal]
    exact hnumber.scale_le
  have hmantissa :
      Nat.ofDigitChars 10 (number.literal.whole ++ number.literal.fraction) 0 < capacity := by
    rw [ofDigitChars_literal]
    exact hnumber.mantissa_lt
  rw [ofDigits_of_fits hscale hmantissa, ofDigitChars_literal, length_fraction_literal, ← h]

end Decimal

/-! ### Symbols -/

/-- The operators and the punctuation. -/
def Symbol.mark? : Symbol → Option String
  | .plus => some "+"
  | .minus => some "-"
  | .star => some "*"
  | .slash => some "/"
  | .openParen => some "("
  | .closeParen => some ")"
  | .comma => some ","
  | .greater => some ">"
  | .less => some "<"
  | .greaterEqual => some ">="
  | .lessEqual => some "<="
  | .equal => some "=="
  | .notEqual => some "!="
  | .number _ | .name _ | .quoted _ | .finish => none

/-- A symbol is written so.  A string stands in quotes of either kind that it does not hold. -/
inductive Symbol.WrittenAs : Symbol → List Char → Prop where
  | number (value : Decimal) : WrittenAs (.number value) value.toChars
  | name (text : String) : WrittenAs (.name text) text.toList
  | quoted {text : String} {quote : Char} (hquote : quote = '"' ∨ quote = '\'')
      (habsent : quote ∉ text.toList) : WrittenAs (.quoted text) (quote :: text.toList ++ [quote])
  | mark {symbol : Symbol} {text : String} (h : symbol.mark? = some text) :
      WrittenAs symbol text.toList

/-- A symbol that an expression can hold: a number within the bounds and without a sign, a
name of the right form, or a string that one kind of quotes is left for. -/
def Symbol.Writable : Symbol → Prop
  | .number value => value.WellFormed ∧ value.negative = false
  | .name text => ∃ c rest, text.toList = c :: rest ∧ Lexer.isNameStart c = true ∧
      ∀ d ∈ rest, Lexer.isNamePart d = true
  | .quoted text => '"' ∉ text.toList ∨ '\'' ∉ text.toList
  | .finish => False
  | _ => True

theorem Symbol.Writable.exists_writtenAs {symbol : Symbol} (h : symbol.Writable) :
    ∃ text, symbol.WrittenAs text := by
  cases symbol with
  | number value => exact ⟨_, .number value⟩
  | name text => exact ⟨_, .name text⟩
  | quoted text =>
    rcases h with hdouble | hsingle
    · exact ⟨_, .quoted (.inl rfl) hdouble⟩
    · exact ⟨_, .quoted (.inr rfl) hsingle⟩
  | finish => exact h.elim
  | _ => exact ⟨_, .mark rfl⟩

namespace Lexer

theorem numeral_literal {number : Decimal} (hnumber : number.WellFormed)
    (h : number.negative = false) (position : Nat) :
    numeral position number.literal.text number.literal.whole number.literal.fraction =
      .ok (.number number) := by
  rw [numeral, Decimal.ofDigits_literal hnumber h]
  apply if_neg
  rw [Bool.and_eq_true, Decimal.isZero_iff_value_eq_zero, ← Decimal.value_literal h,
    ← Literal.any_nonzero_eq_false_iff]
  intro hvanishes
  rw [hvanishes.1] at hvanishes
  exact Bool.false_ne_true hvanishes.2

theorem reads_of_mark {symbol : Symbol} {text : String} (h : symbol.mark? = some text) :
    Reads text.toList symbol := by
  cases symbol <;> cases h
  case greater => exact reads_mark (.inl ⟨rfl, rfl⟩)
  case less => exact reads_mark (.inr ⟨rfl, rfl⟩)
  all_goals exact ⟨_, _, rfl, rfl, fun _ _ _ => rfl⟩

/-- What a symbol is written as is read as that symbol. -/
theorem reads_of_writtenAs {symbol : Symbol} {text : List Char} (h : symbol.Writable)
    (hwritten : symbol.WrittenAs text) : Reads text symbol := by
  cases hwritten with
  | number value =>
    obtain ⟨hvalue, hpositive⟩ := h
    rw [← Decimal.text_literal hpositive]
    exact reads_literal (numeral_literal hvalue hpositive 0)
  | name text =>
    obtain ⟨c, rest, htext, hstart, hrest⟩ := h
    have hread := reads_name hstart hrest
    rwa [← htext, String.ofList_toList] at hread
  | @quoted text quote hquote habsent =>
    have hread := reads_quoted hquote habsent
    rwa [String.ofList_toList] at hread
  | mark hmark => exact reads_of_mark hmark

theorem exists_written {symbols : List Symbol} (h : ∀ symbol ∈ symbols, symbol.Writable) :
    ∃ texts, List.Forall₂ Symbol.WrittenAs symbols texts := by
  induction symbols with
  | nil => exact ⟨[], .nil⟩
  | cons symbol rest ih =>
    obtain ⟨text, htext⟩ := (h symbol (by simp)).exists_writtenAs
    obtain ⟨texts, htexts⟩ := ih fun other hother => h other (by simp [hother])
    exact ⟨text :: texts, .cons htext htexts⟩

/-- With a space between them, one after the other is cut off. -/
theorem exists_scans_of_written {symbols : List Symbol} {texts : List (List Char)}
    (h : ∀ symbol ∈ symbols, symbol.Writable)
    (hwritten : List.Forall₂ Symbol.WrittenAs symbols texts) (position : Nat) :
    ∃ lexemes, Scans position ([' '].intercalate texts) lexemes ∧
      lexemes.map (·.symbol) = symbols := by
  induction hwritten generalizing position with
  | nil => exact ⟨[], .finish, rfl⟩
  | @cons symbol text symbols texts hfirst hothers ih =>
    have hread : Reads text symbol := reads_of_writtenAs (h symbol (by simp)) hfirst
    cases texts with
    | nil =>
      cases hothers
      have hend : Apart [] := by simp [Apart]
      exact ⟨_, Scans.of_reads hread hend .finish, rfl⟩
    | cons next texts =>
      have hspace : Apart (' ' :: [' '].intercalate (next :: texts)) := by simp [Apart, isSeparator]
      obtain ⟨lexemes, hscans, hsymbols⟩ :=
        ih (fun other hother => h other (by simp [hother])) (position + byteCount text + 1)
      have hrest : Scans (position + byteCount text) (' ' :: [' '].intercalate (next :: texts))
          lexemes := .separator rfl hscans
      refine ⟨_, Scans.of_reads hread hspace hrest, ?_⟩
      rw [List.map_cons, hsymbols]

/-- Symbols that are written with a space between them are read back, every number with its
mantissa and its scale. -/
theorem tokens_written {symbols : List Symbol} (h : ∀ symbol ∈ symbols, symbol.Writable) :
    (∃ texts, List.Forall₂ Symbol.WrittenAs symbols texts) ∧
      ∀ texts, List.Forall₂ Symbol.WrittenAs symbols texts →
        ∃ result, tokens ([' '].intercalate texts) = .ok result ∧
          result.map (·.symbol) = symbols ++ [.finish] := by
  constructor
  · exact exists_written h
  · intro texts hwritten
    obtain ⟨lexemes, hscans, hsymbols⟩ := exists_scans_of_written h hwritten 0
    refine ⟨_, hscans.tokensFrom_eq (Nat.le_refl _), ?_⟩
    simp [← hsymbols, Placed.token]

/-- The greatest mantissa, the least number, a zero with a scale, and strings with quotes and
separators in them. -/
theorem tokens_written_of_extremes :
    let symbols : List Symbol :=
      [.number ⟨false, 79228162514264337593543950335, 0⟩, .less, .number ⟨false, 1, 28⟩, .minus,
        .number ⟨false, 0, 3⟩, .quoted "say \"ü\" < 1", .comma, .quoted "don't", .name "_x1"]
    (∀ symbol ∈ symbols, symbol.Writable) ∧
      (∃ texts, List.Forall₂ Symbol.WrittenAs symbols texts) ∧
      ∀ texts, List.Forall₂ Symbol.WrittenAs symbols texts →
        ∃ result, tokens ([' '].intercalate texts) = .ok result ∧
          result.map (·.symbol) = symbols ++ [.finish] := by
  intro symbols
  have hwritable : ∀ symbol ∈ symbols, symbol.Writable := by
    simp only [symbols, List.forall_mem_cons, List.not_mem_nil, false_implies, implies_true,
      Symbol.Writable, and_true, true_and]
    have hname : ∀ d ∈ ['x', '1'], isNamePart d = true := by simp [isNamePart]
    exact ⟨by decide +kernel, by decide +kernel, by decide +kernel, by decide +kernel,
      by decide +kernel, '_', ['x', '1'], rfl, rfl, hname⟩
  exact ⟨hwritable, tokens_written hwritable⟩

end Lexer

end DerivedTelemetry
