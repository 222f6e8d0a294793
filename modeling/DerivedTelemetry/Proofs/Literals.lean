import DerivedTelemetry.Proofs.Decimal.LiteralReading
import DerivedTelemetry.Proofs.Expression.Scanning

/-!
# Numbers are read faithfully

A number in an expression may have any number of digits, and a decimal has 28 or 29.  What
is done about the others never goes unnoticed: a number is off by no more than half of the
last digit that is kept, one that is short enough is exact, and where that cannot be had the
expression is refused.  In particular nothing but zero is read as zero, so that a division
by a tiny number is not taken for a division by zero.
-/

namespace DerivedTelemetry

/-- What is wrong is a number that cannot be represented. -/
def ParseFault.RefusesNumber (fault : ParseFault) (text : String) (position : Nat) : Prop :=
  fault = .vanishingNumber text position ∨ ∃ cause, fault = .invalidNumber text position cause

theorem ParseFault.RefusesNumber.unique {fault : ParseFault} {text other : String}
    {position place : Nat} (h : fault.RefusesNumber text position)
    (hother : fault.RefusesNumber other place) : text = other ∧ position = place := by
  rcases h with rfl | ⟨cause, rfl⟩
  · simpa [RefusesNumber] using hother
  · obtain ⟨_, hsame⟩ := hother.resolve_left (by simp)
    simp_all

namespace Literal

variable {literal : Literal} {position : Nat}

/-- What the digits stand for, however many there are. -/
def value (literal : Literal) : ℚ :=
  Nat.ofDigitChars 10 (literal.whole ++ literal.fraction) 0 / 10 ^ literal.fraction.length

/-- Nearer to zero than to the least decimal above it, or rounded to the capacity. -/
def OutOfRange (literal : Literal) : Prop :=
  0 < literal.value ∧ literal.value < 1 / 2 / 10 ^ 28 ∨
    (Decimal.capacity : ℚ) - 1 / 2 ≤ literal.value

/-- Reading the number as this decimal loses no more than half of its last digit, nothing if
there are few digits, and not all of it. -/
structure ReadAs (literal : Literal) (number : Decimal) : Prop where
  wellFormed : number.WellFormed
  positive : number.negative = false
  near : |number.value - literal.value| ≤ 1 / 2 / 10 ^ number.scale
  exact : (literal.whole ++ literal.fraction).length ≤ 28 → number.value = literal.value
  zero : number.value = 0 → literal.value = 0

/-- The number stands at an offset of a text, and does not go on there. -/
def StandsAt (literal : Literal) (source : List Char) (position : Nat) : Prop :=
  ∃ before after, source = before ++ literal.text ++ after ∧
    Lexer.byteCount before = position ∧ literal.Ends after

theorem value_eq_add (literal : Literal) :
    literal.value =
      Nat.ofDigitChars 10 literal.whole 0 + Decimal.fractionValue literal.fraction := by
  rw [value, Nat.ofDigitChars_append, Decimal.ofDigitChars_div]

theorem value_nonneg (literal : Literal) : 0 ≤ literal.value := by
  rw [value]
  positivity

theorem value_eq_zero_iff (literal : Literal) :
    literal.value = 0 ↔ ∀ c ∈ literal.whole ++ literal.fraction, Decimal.digitValue c = 0 := by
  rw [value, div_eq_zero_iff, or_iff_left (by positivity), Nat.cast_eq_zero,
    Decimal.ofDigitChars_eq_zero_iff, and_iff_right rfl]

theorem any_text (literal : Literal) {p : Char → Bool} (h : p '.' = false) :
    literal.text.any p = (literal.whole ++ literal.fraction).any p := by
  rw [text]
  split
  · rename_i hnone
    simp [hnone]
  · simp [h]

/-- The number is zero if and only if no digit but zeros occurs in it. -/
theorem any_nonzero_eq_false_iff (literal : Literal) :
    literal.text.any (fun c => '1' ≤ c && c ≤ '9') = false ↔ literal.value = 0 := by
  rw [literal.any_text (by decide), List.any_eq_false, value_eq_zero_iff]
  apply forall₂_congr
  intro c hc
  rw [Decimal.digitValue_eq_zero_iff (literal.digits c hc)]
  simp

/-- With at most 28 digits there is room for all of them. -/
theorem value_of_short {number : Decimal}
    (hshort : (literal.whole ++ literal.fraction).length ≤ 28)
    (h : Decimal.ofDigits literal.whole literal.fraction = .ok number) :
    number.value = literal.value := by
  have hscale : literal.fraction.length ≤ Decimal.maxScale := by
    rw [List.length_append] at hshort
    exact le_trans (Nat.le_add_left _ _) hshort
  have hmantissa : Nat.ofDigitChars 10 (literal.whole ++ literal.fraction) 0 < Decimal.capacity :=
    calc Nat.ofDigitChars 10 (literal.whole ++ literal.fraction) 0
        < 10 ^ (literal.whole ++ literal.fraction).length := Decimal.ofDigitChars_lt literal.digits
      _ ≤ 10 ^ 28 := Nat.pow_le_pow_right (by decide) hshort
      _ ≤ Decimal.capacity := by decide +kernel
  rw [Decimal.ofDigits_of_fits hscale hmantissa] at h
  obtain rfl := Except.ok.inj h
  rw [Decimal.value_of_positive, value]

theorem readAs_of_readFrom {number : Decimal} (h : number.ReadFrom literal.value)
    (hread : Decimal.ofDigits literal.whole literal.fraction = .ok number)
    (hzero : number.value = 0 → literal.value = 0) : literal.ReadAs number where
  wellFormed := h.wellFormed
  positive := h.positive
  near := h.near
  exact hshort := value_of_short hshort hread
  zero := hzero

end Literal

namespace Lexer

/-- A number is read as a decimal if and only if it is in range. -/
theorem numeral_cases (literal : Literal) (position : Nat) :
    (∃ number, numeral position literal.text literal.whole literal.fraction = .ok (.number number) ∧
        literal.ReadAs number ∧ ¬literal.OutOfRange) ∨
      ∃ fault, numeral position literal.text literal.whole literal.fraction = .error fault ∧
        fault.RefusesNumber (String.ofList literal.text) position ∧ literal.OutOfRange := by
  have hfraction : ∀ c ∈ literal.fraction, c.isDigit = true :=
    fun c hc => literal.digits c (List.mem_append_right _ hc)
  rcases Decimal.ofDigits_cases literal.whole hfraction with
    ⟨number, hread, hfrom⟩ | ⟨cause, hread, hlarge⟩
  · rw [← literal.value_eq_add] at hfrom
    have hbelow := hfrom.lt_capacity
    have hvanishes : (number.isZero && literal.text.any fun c => '1' ≤ c && c ≤ '9') = true ↔
        number.value = 0 ∧ literal.value ≠ 0 := by
      rw [Bool.and_eq_true, Decimal.isZero_iff_value_eq_zero, Ne,
        ← literal.any_nonzero_eq_false_iff, Bool.not_eq_false]
    by_cases hzero : number.value = 0 ∧ literal.value ≠ 0
    · right
      have hpos : 0 < literal.value := lt_of_le_of_ne literal.value_nonneg hzero.2.symm
      refine ⟨_, ?_, .inl rfl, .inl ⟨hpos, hfrom.zero_iff.mp hzero.1⟩⟩
      rw [numeral, hread]
      exact if_pos (hvanishes.mpr hzero)
    · left
      have hlost : number.value = 0 → literal.value = 0 := by
        intro hnumber
        by_contra hvalue
        exact hzero ⟨hnumber, hvalue⟩
      refine ⟨number, ?_, Literal.readAs_of_readFrom hfrom hread hlost, ?_⟩
      · rw [numeral, hread]
        exact if_neg fun h => hzero (hvanishes.mp h)
      · rintro (⟨hpos, hsmall⟩ | hlarge)
        · exact hpos.ne' (hlost (hfrom.zero_iff.mpr hsmall))
        · linarith
  · right
    rw [← literal.value_eq_add] at hlarge
    refine ⟨_, ?_, .inr ⟨cause, rfl⟩, .inr hlarge⟩
    rw [numeral, hread]

/-! ### Numbers anywhere in a text -/

/-- What is at hand is a number, or one that is refused. -/
def Numeric : Except ParseFault Lexeme → Prop
  | .ok next => ∃ number, next.symbol = .number number
  | .error fault => ∃ text position, fault.RefusesNumber text position

theorem not_numeric_of_comparison (position : Nat) (mark : Char) (rest : List Char) :
    ¬Numeric (comparison position mark rest) := by
  unfold comparison
  split <;> simp [Numeric, ParseFault.RefusesNumber]

theorem not_numeric_of_quoted (position : Nat) (quote : Char) (rest : List Char) :
    ¬Numeric (quoted position quote rest) := by
  unfold quoted
  split <;> simp [Numeric, ParseFault.RefusesNumber]

/-- Nothing else is taken for a number. -/
theorem head_of_numeric {position : Nat} {c : Char} {rest : List Char}
    (h : Numeric (lexeme position c rest)) : c.isDigit = true ∨ c = '.' := by
  unfold lexeme at h
  split at h
  case h_8 | h_9 | h_10 | h_11 => exact absurd h (not_numeric_of_comparison position _ rest)
  case h_12 | h_13 => exact absurd h (not_numeric_of_quoted position _ rest)
  case h_14 =>
    split at h
    · rename_i hnumber
      simpa using hnumber
    · split at h <;> simp [Numeric, ParseFault.RefusesNumber] at h
  all_goals simp [Numeric] at h

/-- Where the scanner finds a number, a number stands that is written so, up to its end. -/
theorem exists_literal_of_numeric {source : List Char} {position : Nat} {c : Char}
    {rest : List Char} (hpasses : Passes source position (c :: rest))
    (h : Numeric (lexeme position c rest)) :
    ∃ (literal : Literal) (after : List Char), literal.StandsAt source position ∧
      lexeme position c rest =
        (numeral position literal.text literal.whole literal.fraction).map fun symbol =>
          ⟨symbol, literal.text, after⟩ := by
  have hhead := head_of_numeric h
  rw [lexeme_of_digit hhead] at h ⊢
  rcases exists_literal_ahead hhead rest position with
    ⟨text, hmalformed⟩ | ⟨literal, after, hahead, hends⟩
  · rw [hmalformed] at h
    simp [Numeric, ParseFault.RefusesNumber] at h
  · obtain ⟨before, hsource, hbefore⟩ := hpasses.exists_before
    refine ⟨literal, after, ⟨before, after, ?_, hbefore, hends⟩, ?_⟩
    · rw [hsource, hahead, List.append_assoc]
    · rw [hahead, number_of_ends hends]

variable {source : List Char}

/-- A number among the tokens of a text is what the digits at its place are read as. -/
theorem exists_literal_of_token {result : List Token} (h : tokens source = .ok result)
    {token : Token} (htoken : token ∈ result) {number : Decimal}
    (hnumber : token.symbol = .number number) :
    ∃ literal : Literal, literal.StandsAt source token.position ∧ literal.ReadAs number := by
  obtain ⟨lexemes, hscans, rfl⟩ := exists_scans_of_tokens h
  have hmem : token ∈ lexemes.map (·.token) := by
    rcases List.mem_append.mp htoken with hmem | hend
    · exact hmem
    · rw [List.mem_singleton.mp hend] at hnumber
      cases hnumber
  obtain ⟨placed, hplaced, rfl⟩ := List.mem_map.mp hmem
  obtain ⟨c, rest, next, hpasses, hnext, heq⟩ := exists_passes_of_scans hscans .start placed hplaced
  have hsymbol : next.symbol = .number number := by
    rw [heq] at hnumber
    exact hnumber
  have hnumeric : Numeric (lexeme placed.start c rest) := by
    rw [hnext]
    exact ⟨number, hsymbol⟩
  obtain ⟨literal, after, hstands, hread⟩ := exists_literal_of_numeric hpasses hnumeric
  refine ⟨literal, hstands, ?_⟩
  rw [hnext] at hread
  rcases numeral_cases literal placed.start with ⟨other, hother, hreadAs, -⟩ | ⟨fault, hfault, -⟩
  · rw [hother] at hread
    obtain rfl := Except.ok.inj hread
    obtain rfl : other = number := by simpa using hsymbol
    exact hreadAs
  · rw [hfault] at hread
    cases hread

/-- A number for which a text is refused stands there and is out of range. -/
theorem exists_literal_of_fault {fault : ParseFault} (h : tokens source = .error fault)
    {text : String} {position : Nat} (hfault : fault.RefusesNumber text position) :
    ∃ literal : Literal, literal.StandsAt source position ∧
      text = String.ofList literal.text ∧ literal.OutOfRange := by
  obtain ⟨start, c, rest, hpasses, -, hcause⟩ := exists_passes_of_fault h
  have hnumeric : Numeric (lexeme start c rest) := by
    rw [hcause]
    exact ⟨text, position, hfault⟩
  obtain ⟨literal, after, hstands, hread⟩ := exists_literal_of_numeric hpasses hnumeric
  rw [hcause] at hread
  rcases numeral_cases literal start with ⟨number, hnumber, -⟩ | ⟨other, hother, hrefuses, hrange⟩
  · rw [hnumber] at hread
    cases hread
  · rw [hother] at hread
    obtain rfl := Except.error.inj hread
    obtain ⟨rfl, rfl⟩ := hfault.unique hrefuses
    exact ⟨literal, hstands, rfl, hrange⟩

/-- A number by itself is read, or refused. -/
theorem tokens_literal (literal : Literal) :
    (∃ number,
      tokens literal.text = .ok [⟨.number number, 0⟩, ⟨.finish, byteCount literal.text⟩] ∧
        literal.ReadAs number ∧ ¬literal.OutOfRange) ∨
      ∃ fault, tokens literal.text = .error fault ∧
        fault.RefusesNumber (String.ofList literal.text) 0 ∧ literal.OutOfRange := by
  rcases numeral_cases literal 0 with
    ⟨number, hnumber, hread, hrange⟩ | ⟨fault, hfault, hrefuses, hrange⟩
  · exact .inl ⟨number, tokens_of_reads (reads_literal hnumber), hread, hrange⟩
  · refine .inr ⟨fault, ?_, hrefuses, hrange⟩
    have hends : literal.Ends [] := by simp [Literal.Ends]
    obtain ⟨c, tail, htext, hhead⟩ := literal.exists_head
    have hlexeme : lexeme 0 c tail = .error fault := by
      have hnumber := number_of_ends hends 0
      rw [List.append_nil, hfault, htext] at hnumber
      rw [lexeme_of_digit hhead, hnumber]
      rfl
    rw [htext, tokens]
    exact tokensFrom_refused (isSeparator_of_digit hhead) hlexeme

/-- Every number by itself is read faithfully, or refused because it is out of range.  In any
text the same is true of the numbers among the tokens and of one for which it is refused. -/
theorem literals_faithful :
    (∀ literal : Literal,
      (∃ number,
        tokens literal.text = .ok [⟨.number number, 0⟩, ⟨.finish, byteCount literal.text⟩] ∧
          literal.ReadAs number ∧ ¬literal.OutOfRange) ∨
        ∃ fault, tokens literal.text = .error fault ∧
          fault.RefusesNumber (String.ofList literal.text) 0 ∧ literal.OutOfRange) ∧
      (∀ source result, tokens source = .ok result → ∀ token ∈ result, ∀ number,
        token.symbol = .number number →
          ∃ literal : Literal, literal.StandsAt source token.position ∧ literal.ReadAs number) ∧
      ∀ source fault, tokens source = .error fault → ∀ text position,
        fault.RefusesNumber text position →
          ∃ literal : Literal, literal.StandsAt source position ∧
            text = String.ofList literal.text ∧ literal.OutOfRange := by
  refine ⟨tokens_literal, ?_, ?_⟩
  · intro source result h token htoken number hnumber
    exact exists_literal_of_token h htoken hnumber
  · intro source fault h text position hfault
    exact exists_literal_of_fault h hfault

/-- A carry into a shorter number, and a number that is only just too small. -/
theorem literals_faithful_at_bounds :
    let source := "2*7922816251426433759354395033.55".toList
    let result : List Token :=
      [⟨.number ⟨false, 2, 0⟩, 0⟩, ⟨.star, 1⟩,
        ⟨.number ⟨false, 7922816251426433759354395034, 0⟩, 2⟩, ⟨.finish, 33⟩]
    let tiny := "1/.00000000000000000000000000004".toList
    let fault : ParseFault := .vanishingNumber ".00000000000000000000000000004" 2
    (tokens source = .ok result ∧ ∃ literal : Literal, literal.StandsAt source 2 ∧
        literal.ReadAs ⟨false, 7922816251426433759354395034, 0⟩) ∧
      tokens tiny = .error fault ∧ ∃ literal : Literal, literal.StandsAt tiny 2 ∧
        ".00000000000000000000000000004" = String.ofList literal.text ∧ literal.OutOfRange := by
  intro source result tiny fault
  obtain ⟨-, hread, hrefused⟩ := literals_faithful
  have hsource : tokens source = .ok result := by decide +kernel
  have htiny : tokens tiny = .error fault := by decide +kernel
  constructor
  · exact ⟨hsource, hread source result hsource ⟨_, 2⟩ (by simp [result]) _ rfl⟩
  · exact ⟨htiny, hrefused tiny fault htiny _ 2 (.inl rfl)⟩

end Lexer

end DerivedTelemetry
