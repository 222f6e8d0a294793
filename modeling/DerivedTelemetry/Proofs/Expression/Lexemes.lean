import DerivedTelemetry.Expression.Lexer

/-!
# What a lexeme is read as

The scanner takes as much as it can, so what a lexeme is read as depends on what comes after
it, but only so far as this could belong to it.  Where nothing follows, or a separator does,
the characters of a lexeme are read as the same symbol at any place of any text.
-/

namespace DerivedTelemetry

/-! ### Numbers as they are written -/

/-- A number as it is written: digits, and after a point more of them.  Without a point
there is no fraction. -/
structure Literal where
  whole : List Char
  fraction : List Char
  digits : ∀ c ∈ whole ++ fraction, c.isDigit = true
  ne_nil : whole ++ fraction ≠ []

namespace Literal

variable {literal : Literal} {after : List Char}

def text (literal : Literal) : List Char :=
  if literal.fraction = [] then literal.whole else literal.whole ++ '.' :: literal.fraction

/-- A number begins with a digit or with its point. -/
theorem exists_head (literal : Literal) :
    ∃ c tail, literal.text = c :: tail ∧ (c.isDigit = true ∨ c = '.') := by
  obtain ⟨whole, fraction, hdigits, hsome⟩ := literal
  cases whole with
  | nil => exact ⟨'.', fraction, if_neg (by simpa using hsome), .inr rfl⟩
  | cons c rest =>
    have hdigit : c.isDigit = true := hdigits c (by simp)
    by_cases hnone : fraction = []
    · exact ⟨c, rest, if_pos hnone, .inl hdigit⟩
    · exact ⟨c, rest ++ '.' :: fraction, if_neg hnone, .inl hdigit⟩

/-- The number does not go on in what follows it. -/
def Ends (literal : Literal) (after : List Char) : Prop :=
  ∀ c ∈ after.head?, c.isDigit = false ∧ (literal.fraction = [] → c ≠ '.')

end Literal

namespace Lexer

/-- What is taken from the front of a text comes to an end where it does in the text. -/
theorem span_of_all {p : Char → Bool} {taken after : List Char} (htaken : ∀ c ∈ taken, p c = true)
    (hafter : ∀ c ∈ after.head?, p c = false) :
    (taken ++ after).takeWhile p = taken ∧ (taken ++ after).dropWhile p = after := by
  have hstop : after.takeWhile p = [] ∧ after.dropWhile p = after := by
    cases after with
    | nil => simp
    | cons c rest => simp [hafter c rfl]
  rw [List.takeWhile_append_of_pos htaken, List.dropWhile_append_of_pos htaken, hstop.1, hstop.2]
  simp

theorem head?_dropWhile (p : Char → Bool) (chars : List Char) :
    ∀ c ∈ (chars.dropWhile p).head?, p c = false := by
  intro c hc
  have hnot := List.head?_dropWhile_not p chars
  rw [Option.mem_def.mp hc] at hnot
  simpa using hnot

/-! ### Numbers -/

/-- A number ahead is taken whole. -/
theorem number_of_ends {literal : Literal} {after : List Char} (h : literal.Ends after)
    (position : Nat) :
    number position (literal.text ++ after) =
      (numeral position literal.text literal.whole literal.fraction).map fun symbol =>
        ⟨symbol, literal.text, after⟩ := by
  have hwhole : ∀ c ∈ literal.whole, c.isDigit = true :=
    fun c hc => literal.digits c (List.mem_append_left _ hc)
  have hstop : ∀ c ∈ after.head?, c.isDigit = false := fun c hc => (h c hc).1
  by_cases hnone : literal.fraction = []
  · have hspan := span_of_all hwhole hstop
    rw [Literal.text, if_pos hnone, number, hspan.1, hspan.2, hnone]
    cases after with
    | nil => rfl
    | cons c rest =>
      have hpoint : c ≠ '.' := (h c rfl).2 hnone
      simp [hpoint]
  · have hfraction : ∀ c ∈ literal.fraction, c.isDigit = true :=
      fun c hc => literal.digits c (List.mem_append_right _ hc)
    have hpoint : ∀ c ∈ ('.' :: literal.fraction ++ after).head?, c.isDigit = false := by
      simp
    have hspan := span_of_all hwhole hpoint
    have hrest := span_of_all hfraction hstop
    rw [Literal.text, if_neg hnone, List.append_assoc, number, hspan.1, hspan.2]
    simp [hrest.1, hrest.2, hnone]

/-- What begins like a number is one, or lacks the digits after its point. -/
theorem exists_literal_ahead {c : Char} (h : c.isDigit = true ∨ c = '.') (rest : List Char)
    (position : Nat) :
    (∃ text, number position (c :: rest) = .error (.malformedNumber text position)) ∨
      ∃ (literal : Literal) (after : List Char),
        c :: rest = literal.text ++ after ∧ literal.Ends after := by
  have hwhole : ∀ d ∈ (c :: rest).takeWhile Char.isDigit, d.isDigit = true :=
    List.all_eq_true.mp List.all_takeWhile
  have hsplit := List.takeWhile_append_dropWhile (p := Char.isDigit) (l := c :: rest)
  have hstop := head?_dropWhile Char.isDigit (c :: rest)
  by_cases hpoint : ((c :: rest).dropWhile Char.isDigit).head? = some '.'
  · obtain ⟨tail, htail⟩ := List.head?_eq_some_iff.mp hpoint
    have hfraction : ∀ d ∈ tail.takeWhile Char.isDigit, d.isDigit = true :=
      List.all_eq_true.mp List.all_takeWhile
    by_cases hnone : tail.takeWhile Char.isDigit = []
    · left
      rw [number, htail]
      exact ⟨_, if_pos hnone⟩
    · right
      let literal : Literal :=
        { whole := (c :: rest).takeWhile Char.isDigit
          fraction := tail.takeWhile Char.isDigit
          digits := fun d hd => (List.mem_append.mp hd).elim (hwhole d) (hfraction d)
          ne_nil := fun hnil => hnone (List.append_eq_nil_iff.mp hnil).2 }
      refine ⟨literal, tail.dropWhile Char.isDigit, ?_, fun d hd => ?_⟩
      · have hrest := List.takeWhile_append_dropWhile (p := Char.isDigit) (l := tail)
        rw [Literal.text, if_neg hnone, List.append_assoc, List.cons_append, hrest, ← htail, hsplit]
      · exact ⟨head?_dropWhile _ _ d hd, fun hfalse => absurd hfalse hnone⟩
  · right
    have hdigit : (c :: rest).takeWhile Char.isDigit ≠ [] := by
      rcases h with hc | rfl
      · simp [hc]
      · simp at hpoint
    let literal : Literal :=
      { whole := (c :: rest).takeWhile Char.isDigit
        fraction := []
        digits := fun d hd => hwhole d (by simpa using hd)
        ne_nil := by simpa using hdigit }
    refine ⟨literal, (c :: rest).dropWhile Char.isDigit, ?_, fun d hd => ⟨hstop d hd, fun _ => ?_⟩⟩
    · rw [Literal.text, if_pos rfl, hsplit]
    · rintro rfl
      exact hpoint hd

/-- What has been read as a number is written in digits. -/
theorem exists_numeral_of_number {position : Nat} {c : Char} {rest : List Char} {next : Lexeme}
    (hhead : c.isDigit = true ∨ c = '.') (h : number position (c :: rest) = .ok next) :
    ∃ literal : Literal, next.text = literal.text ∧
      numeral position literal.text literal.whole literal.fraction = .ok next.symbol := by
  rcases exists_literal_ahead hhead rest position with ⟨text, hfault⟩ | ⟨literal, after, hc, hends⟩
  · rw [hfault] at h
    cases h
  · rw [hc, number_of_ends hends] at h
    cases hsymbol : numeral position literal.text literal.whole literal.fraction with
    | error fault =>
      rw [hsymbol] at h
      cases h
    | ok symbol =>
      rw [hsymbol] at h
      cases h
      exact ⟨literal, rfl, hsymbol⟩

/-- Which number digits are read as does not depend on where they stand. -/
theorem numeral_anywhere {position : Nat} {text whole fraction : List Char} {symbol : Symbol}
    (h : numeral position text whole fraction = .ok symbol) (other : Nat) :
    numeral other text whole fraction = .ok symbol := by
  rw [numeral] at h ⊢
  cases hvalue : Decimal.ofDigits whole fraction with
  | error cause =>
    rw [hvalue] at h
    cases h
  | ok value =>
    rw [hvalue] at h
    dsimp only at h ⊢
    split at h
    · cases h
    · rename_i hvanishes
      rw [if_neg hvanishes]
      exact h

/-! ### What is read wherever it stands apart -/

/-- What a lexeme may be followed by without going on: nothing, or a separator. -/
def Apart (after : List Char) : Prop := ∀ c ∈ after.head?, isSeparator c = true

/-- Wherever they stand apart, these characters are read as this symbol. -/
def Reads (text : List Char) (symbol : Symbol) : Prop :=
  ∃ c tail, text = c :: tail ∧ isSeparator c = false ∧
    ∀ position after, Apart after →
      lexeme position c (tail ++ after) = .ok ⟨symbol, text, after⟩

theorem Reads.text_ne_nil {text : List Char} {symbol : Symbol} (h : Reads text symbol) :
    text ≠ [] := by
  obtain ⟨c, tail, rfl, -⟩ := h
  exact List.cons_ne_nil c tail

theorem isSeparator_cases {c : Char} (h : isSeparator c = true) :
    c = ' ' ∨ c = '\t' ∨ c = '\r' ∨ c = '\n' := by
  simpa [isSeparator, or_assoc] using h

/-- None of the four separators is of this class. -/
def Excludes (p : Char → Bool) : Prop :=
  p ' ' = false ∧ p '\t' = false ∧ p '\r' = false ∧ p '\n' = false

instance (p : Char → Bool) : Decidable (Excludes p) :=
  inferInstanceAs (Decidable (_ ∧ _ ∧ _ ∧ _))

theorem Excludes.eq_false {p : Char → Bool} (hp : Excludes p) {c : Char}
    (h : isSeparator c = true) : p c = false := by
  obtain ⟨hspace, htab, hreturn, hfeed⟩ := hp
  rcases isSeparator_cases h with rfl | rfl | rfl | rfl <;> assumption

theorem Excludes.isSeparator_eq_false {p : Char → Bool} (hp : Excludes p) {c : Char}
    (h : p c = true) : isSeparator c = false := by
  cases hseparator : isSeparator c with
  | false => rfl
  | true =>
    rw [hp.eq_false hseparator] at h
    cases h

theorem Apart.head?_not {p : Char → Bool} {after : List Char} (h : Apart after)
    (hp : Excludes p) : ∀ c ∈ after.head?, p c = false :=
  fun c hc => hp.eq_false (h c hc)

theorem lexeme_of_digit {c : Char} (h : c.isDigit = true ∨ c = '.') (position : Nat)
    (rest : List Char) : lexeme position c rest = number position (c :: rest) := by
  have hnumber : (c.isDigit || c == '.') = true := by simpa using h
  unfold lexeme
  split
  case h_14 => rw [if_pos hnumber]
  all_goals exact absurd hnumber (by decide)

theorem excludes_digit : Excludes fun c => c.isDigit || c == '.' := by decide

theorem isSeparator_of_digit {c : Char} (h : c.isDigit = true ∨ c = '.') :
    isSeparator c = false := excludes_digit.isSeparator_eq_false (by simpa using h)

theorem not_digit_of_isNameStart {c : Char} (h : isNameStart c = true) :
    ¬(c.isDigit || c == '.') = true := by
  intro hnumber
  rw [isNameStart, Bool.or_eq_true, beq_iff_eq] at h
  rw [Bool.or_eq_true, beq_iff_eq, Char.isDigit_iff_toNat] at hnumber
  have hvalue : 0x41 ≤ c.toNat := by
    rcases h with halpha | rfl
    · delta Char.isAlpha Char.isUpper Char.isLower at halpha
      simp [UInt32.le_iff_toNat_le] at halpha
      omega
    · decide
  have hless : c.toNat ≤ 0x39 := by
    rcases hnumber with hdigit | rfl
    · exact hdigit.2
    · decide
  omega

theorem lexeme_of_nameStart {c : Char} (h : isNameStart c = true) (position : Nat)
    (rest : List Char) :
    lexeme position c rest =
      .ok ⟨.name (String.ofList (c :: rest.takeWhile isNamePart)), c :: rest.takeWhile isNamePart,
        rest.dropWhile isNamePart⟩ := by
  unfold lexeme
  split
  case h_14 => rw [if_neg (not_digit_of_isNameStart h), if_pos h]
  all_goals exact absurd h (by decide)

theorem quoted_of_not_mem {quote : Char} {content : List Char} (h : quote ∉ content)
    (position : Nat) (after : List Char) :
    quoted position quote (content ++ quote :: after) =
      .ok ⟨.quoted (String.ofList content), quote :: content ++ [quote], after⟩ := by
  have hcontent : ∀ c ∈ content, (c != quote) = true := by
    intro c hc
    simpa using fun heq : c = quote => h (heq ▸ hc)
  have hclose : ∀ c ∈ (quote :: after).head?, (c != quote) = false := by simp
  have hspan := span_of_all hcontent hclose
  rw [quoted, hspan.1, hspan.2]

theorem reads_name {c : Char} {rest : List Char} (hstart : isNameStart c = true)
    (hrest : ∀ d ∈ rest, isNamePart d = true) :
    Reads (c :: rest) (.name (String.ofList (c :: rest))) := by
  have hexcludes : Excludes isNameStart := by decide
  refine ⟨c, rest, rfl, hexcludes.isSeparator_eq_false hstart, fun position after hafter => ?_⟩
  have hspan := span_of_all hrest (hafter.head?_not (by decide))
  rw [lexeme_of_nameStart hstart, hspan.1, hspan.2]

theorem reads_quoted {quote : Char} (hquote : quote = '"' ∨ quote = '\'') {content : List Char}
    (hcontent : quote ∉ content) :
    Reads (quote :: content ++ [quote]) (.quoted (String.ofList content)) := by
  have hlexeme : ∀ position rest, lexeme position quote rest = quoted position quote rest := by
    rcases hquote with rfl | rfl <;> exact fun _ _ => rfl
  refine ⟨quote, content ++ [quote], rfl, ?_, fun position after _ => ?_⟩
  · rcases hquote with rfl | rfl <;> rfl
  · rw [hlexeme, List.append_assoc]
    exact quoted_of_not_mem hcontent position after

theorem reads_literal {literal : Literal} {position : Nat} {symbol : Symbol}
    (h : numeral position literal.text literal.whole literal.fraction = .ok symbol) :
    Reads literal.text symbol := by
  obtain ⟨c, tail, htext, hhead⟩ := literal.exists_head
  refine ⟨c, tail, htext, isSeparator_of_digit hhead, fun other after hafter => ?_⟩
  have hends : literal.Ends after := by
    intro d hd
    have hnot : (d.isDigit || d == '.') = false := hafter.head?_not excludes_digit d hd
    rw [Bool.or_eq_false_iff, beq_eq_false_iff_ne] at hnot
    exact ⟨hnot.1, fun _ => hnot.2⟩
  rw [lexeme_of_digit hhead, ← List.cons_append, ← htext, number_of_ends hends,
    numeral_anywhere h other]
  rfl

/-- Before a separator there is no equals sign, so `>` and `<` stand for themselves. -/
theorem reads_mark {mark : Char} {symbol : Symbol}
    (h : mark = '>' ∧ symbol = .greater ∨ mark = '<' ∧ symbol = .less) : Reads [mark] symbol := by
  rcases h with ⟨rfl, rfl⟩ | ⟨rfl, rfl⟩
  all_goals
    refine ⟨_, [], rfl, rfl, fun position after hafter => ?_⟩
    cases after with
    | nil => rfl
    | cons c rest => rcases isSeparator_cases (hafter c rfl) with rfl | rfl | rfl | rfl <;> rfl

theorem reads_of_comparison {position : Nat} {mark : Char} {rest : List Char} {next : Lexeme}
    (h : comparison position mark rest = .ok next) : Reads next.text next.symbol := by
  unfold comparison at h
  split at h <;> cases h
  case h_5 => exact reads_mark (.inl ⟨rfl, rfl⟩)
  case h_6 => exact reads_mark (.inr ⟨rfl, rfl⟩)
  all_goals exact ⟨_, ['='], rfl, rfl, fun _ _ _ => rfl⟩

theorem reads_of_quoted {position : Nat} {quote : Char} {rest : List Char} {next : Lexeme}
    (hquote : quote = '"' ∨ quote = '\'') (h : quoted position quote rest = .ok next) :
    Reads next.text next.symbol := by
  unfold quoted at h
  split at h
  · cases h
  · rename_i close after hreached
    cases h
    have hclose : close = quote := by
      have hnot := head?_dropWhile (· != quote) rest close (by rw [hreached]; rfl)
      simpa using hnot
    have hcontent : quote ∉ rest.takeWhile (· != quote) := by
      intro hmem
      have hall := List.all_eq_true.mp (List.all_takeWhile (p := (· != quote)) (l := rest))
      simpa using hall quote hmem
    rw [hclose]
    exact reads_quoted hquote hcontent

theorem reads_of_number {position : Nat} {c : Char} {rest : List Char} {next : Lexeme}
    (hhead : c.isDigit = true ∨ c = '.') (h : number position (c :: rest) = .ok next) :
    Reads next.text next.symbol := by
  obtain ⟨literal, htext, hsymbol⟩ := exists_numeral_of_number hhead h
  rw [htext]
  exact reads_literal hsymbol

/-- What has been read as a symbol in one place is read so wherever it stands apart. -/
theorem reads_of_lexeme {position : Nat} {c : Char} {rest : List Char} {next : Lexeme}
    (h : lexeme position c rest = .ok next) : Reads next.text next.symbol := by
  unfold lexeme at h
  split at h
  case h_8 | h_9 | h_10 | h_11 => exact reads_of_comparison h
  case h_12 | h_13 => exact reads_of_quoted (by decide) h
  case h_14 =>
    split at h
    · rename_i hnumber
      exact reads_of_number (by simpa using hnumber) h
    · split at h
      · rename_i hname
        cases h
        exact reads_name hname (List.all_eq_true.mp List.all_takeWhile)
      · cases h
  all_goals
    cases h
    exact ⟨_, [], rfl, rfl, fun _ _ _ => rfl⟩

end Lexer

end DerivedTelemetry
