import DerivedTelemetry.Proofs.Expression.ByteScanning
import DerivedTelemetry.Proofs.Segmentation

/-!
# Cutting between characters

The scanner of bytes never cuts through a character.  At the head of its loop it stands where
a character begins, and every lexeme takes it to such a place again: the bytes of a character
beyond ASCII are beyond ASCII as well, so a scan over bytes does not stop inside of it.  That
is proved beside the scanner of characters, which comes to the same result in every text, and
with it that no offset is ever used that a text does not have.
-/

namespace DerivedTelemetry.ByteScanner

open Lexer (byteCount byteCount_append byteCount_cons)
open Text

section Lexemes

variable {source : String} {before rest : List Char}

/-! ### Lexemes -/

theorem lt_of_isNamePart {c : Char} (h : Lexer.isNamePart c = true) : c.toNat < 128 := by
  rw [Lexer.isNamePart, Bool.or_eq_true, beq_iff_eq] at h
  rcases h with halphanum | rfl
  · delta Char.isAlphanum Char.isAlpha Char.isUpper Char.isLower Char.isDigit at halphanum
    simp [UInt32.le_iff_toNat_le] at halphanum
    omega
  · decide

theorem isNamePart_of_isNameStart {c : Char} (h : Lexer.isNameStart c = true) :
    Lexer.isNamePart c = true := by
  rw [Lexer.isNameStart, Bool.or_eq_true] at h
  rw [Lexer.isNamePart, Bool.or_eq_true]
  refine h.imp_left fun halpha => ?_
  delta Char.isAlphanum
  rw [halpha, Bool.true_or]

theorem asciiTest_isNamePart : AsciiTest Lexer.isNamePart :=
  asciiTest_of_imp fun _ => lt_of_isNamePart

theorem lt_of_isDigit {c : Char} (h : c.isDigit = true) : c.toNat < 128 := by
  have hnine : '9'.toNat = 57 := rfl
  have hle := (Char.isDigit_iff_toNat.mp h).2
  omega

theorem asciiTest_isDigit : AsciiTest Char.isDigit := asciiTest_of_imp fun _ => lt_of_isDigit

/-- A lexeme as the scanner of bytes has it: its symbol, and the offset of the byte behind
it. -/
def foundAt (start : Nat) (next : Lexer.Lexeme) : Found :=
  (next.symbol, start + byteCount next.text)

theorem byteCount_snoc {mark : Char} (hmark : mark.utf8Size = 1) (before : List Char) :
    byteCount (before ++ [mark]) = byteCount before + 1 := by
  rw [byteCount_append, byteCount_cons, hmark]
  rfl

/-- Without an equals sign behind them only two of the marks stand for themselves. -/
theorem comparison_of_alone {position : Nat} {mark : Char}
    (hlone : ∀ tail, rest ≠ '=' :: tail) :
    Lexer.comparison position mark rest =
      if mark = '>' then .ok ⟨.greater, ['>'], rest⟩
      else if mark = '<' then .ok ⟨.less, ['<'], rest⟩
      else .error (.loneMark mark position) := by
  unfold Lexer.comparison
  split
  case h_7 =>
    rw [if_neg (by assumption), if_neg (by assumption)]
  case h_5 | h_6 => rfl
  all_goals exact absurd rfl (hlone _)

theorem comparison_agrees {mark : Char} (hmark : mark ∈ ['>', '<', '=', '!'])
    (h : source.toList = before ++ mark :: rest) :
    Agrees source (comparison source (byteCount before) mark)
      ((Lexer.comparison (byteCount before) mark rest).map (foundAt (byteCount before))) := by
  have hmarks : mark = '>' ∨ mark = '<' ∨ mark = '=' ∨ mark = '!' := by simpa using hmark
  have hsize : mark.utf8Size = 1 := by rcases hmarks with rfl | rfl | rfl | rfl <;> rfl
  have hbehind : source.toList = (before ++ [mark]) ++ rest := by simp [h]
  have hequals : '='.toNat < 128 := by decide
  have hfollowed := isAt_agrees hequals hbehind
  rw [byteCount_snoc hsize] at hfollowed
  refine hfollowed.next ?_
  cases hequal : rest.head? == some '=' with
  | true =>
    obtain ⟨tail, rfl⟩ := List.head?_eq_some_iff.mp (eq_of_beq hequal)
    rcases hmarks with rfl | rfl | rfl | rfl <;> exact .pure _
  | false =>
    have hlone : ∀ tail, rest ≠ '=' :: tail := by
      rintro tail rfl
      simp at hequal
    rw [comparison_of_alone hlone]
    rcases hmarks with rfl | rfl | rfl | rfl
    · exact .pure _
    · exact .pure _
    · exact .fault _
    · exact .fault _

theorem quoted_agrees {quote : Char} (hquote : quote.toNat < 128) (hsize : quote.utf8Size = 1)
    (h : source.toList = before ++ quote :: rest) :
    Agrees source (quoted source (byteCount before) quote)
      ((Lexer.quoted (byteCount before) quote rest).map (foundAt (byteCount before))) := by
  have hbehind : source.toList = (before ++ [quote]) ++ rest := by simp [h]
  have hskip := skipWhile_agrees (asciiTest_bne hquote) hbehind
  rw [byteCount_snoc hsize] at hskip
  have hwhole := List.takeWhile_append_dropWhile (p := (· != quote)) (l := rest)
  have htotal := byteCount_of_split hbehind
  rw [byteCount_snoc hsize] at htotal
  refine hskip.next ?_
  rw [Lexer.quoted]
  cases hclose : rest.dropWhile (· != quote) with
  | nil =>
    rw [hclose, List.append_nil] at hwhole
    rw [if_pos (by rw [hwhole]; omega)]
    exact .fault _
  | cons close after =>
    have hquoteClose : close = quote := by
      simpa using Lexer.head?_dropWhile (· != quote) rest close (by rw [hclose]; rfl)
    rw [hclose, hquoteClose] at hwhole
    have hpiece : source.toList =
        (before ++ [quote]) ++ rest.takeWhile (· != quote) ++ quote :: after := by
      rw [hbehind, List.append_assoc _ _ (quote :: after), hwhole]
    have hcut := cut_agrees hpiece
    have hinside := byteCount_of_split hpiece
    rw [byteCount_append, byteCount_snoc hsize, byteCount_cons, hsize] at hinside
    rw [byteCount_snoc hsize] at hcut
    rw [if_neg (by omega)]
    refine hcut.next ?_
    have hstop : byteCount before + byteCount (quote :: rest.takeWhile (· != quote) ++ [close]) =
        byteCount before + 1 + byteCount (rest.takeWhile (· != quote)) + 1 := by
      rw [hquoteClose, byteCount_snoc hsize, byteCount_cons, hsize]
      omega
    change Agrees source _ (.ok (_, byteCount before + byteCount (_ ++ [close])))
    rw [hstop]
    exact .pure _

theorem numeral_agrees {literal after : List Char} {whole fraction : List Char}
    (hwhole : literal.takeWhile Char.isDigit = whole)
    (hfraction : (literal.dropWhile Char.isDigit).tail = fraction)
    (h : source.toList = before ++ literal ++ after) :
    Agrees source (numeral source (byteCount before) (byteCount before + byteCount literal))
      (((Lexer.numeral (byteCount before) literal whole fraction).map fun symbol =>
        (⟨symbol, literal, after⟩ : Lexer.Lexeme)).map (foundAt (byteCount before))) := by
  refine (cut_agrees h).next ?_
  rw [String.toList_ofList, hwhole, hfraction]
  dsimp only
  cases Lexer.numeral (byteCount before) literal whole fraction with
  | error cause => exact .fault _
  | ok symbol => exact .pure _

theorem name_agrees {c : Char} (hstart : Lexer.isNameStart c = true)
    (h : source.toList = before ++ c :: rest) :
    Agrees source (name source (byteCount before))
      (.ok (foundAt (byteCount before)
        ⟨.name (String.ofList (c :: rest.takeWhile Lexer.isNamePart)),
          c :: rest.takeWhile Lexer.isNamePart, rest.dropWhile Lexer.isNamePart⟩)) := by
  have hpart : Lexer.isNamePart c = true := isNamePart_of_isNameStart hstart
  have hskip := skipWhile_agrees asciiTest_isNamePart h
  have htaken : (c :: rest).takeWhile Lexer.isNamePart = c :: rest.takeWhile Lexer.isNamePart := by
    rw [List.takeWhile_cons, if_pos hpart]
  rw [htaken] at hskip
  have hpiece : source.toList = before ++ (c :: rest.takeWhile Lexer.isNamePart) ++
      rest.dropWhile Lexer.isNamePart := by
    rw [h, List.append_assoc, List.cons_append, List.takeWhile_append_dropWhile]
  exact hskip.next ((cut_agrees hpiece).next (.pure _))

theorem number_of_point {position : Nat} {chars tail : List Char}
    (h : chars.dropWhile Char.isDigit = '.' :: tail) :
    Lexer.number position chars =
      if tail.takeWhile Char.isDigit = [] then
        .error (.malformedNumber (String.ofList (chars.takeWhile Char.isDigit ++
          '.' :: tail.takeWhile Char.isDigit)) position)
      else
        (Lexer.numeral position (chars.takeWhile Char.isDigit ++ '.' :: tail.takeWhile Char.isDigit)
          (chars.takeWhile Char.isDigit) (tail.takeWhile Char.isDigit)).map fun symbol =>
            ⟨symbol, chars.takeWhile Char.isDigit ++ '.' :: tail.takeWhile Char.isDigit,
              tail.dropWhile Char.isDigit⟩ := by
  rw [Lexer.number, h]
  rfl

theorem span_to_point {whole : List Char} (hwhole : ∀ c ∈ whole, c.isDigit = true)
    (tail : List Char) :
    (whole ++ '.' :: tail).takeWhile Char.isDigit = whole ∧
      (whole ++ '.' :: tail).dropWhile Char.isDigit = '.' :: tail :=
  Lexer.span_of_all hwhole (by simp)

/-- The number that begins with these digits and a point. -/
theorem fractional_agrees {whole tail : List Char} (hwhole : ∀ c ∈ whole, c.isDigit = true)
    (h : source.toList = before ++ whole ++ '.' :: tail) :
    Agrees source (fractional source (byteCount before) (byteCount before + byteCount whole))
      ((Lexer.number (byteCount before) (whole ++ '.' :: tail)).map
        (foundAt (byteCount before))) := by
  have hpoint : source.toList = before ++ whole ++ ['.'] ++ tail := by simp [h]
  have hskip := skipWhile_agrees asciiTest_isDigit hpoint
  rw [byteCount_snoc rfl, byteCount_append] at hskip
  have hspan := span_to_point hwhole tail
  have hsplit := List.takeWhile_append_dropWhile (p := Char.isDigit) (l := tail)
  refine hskip.next ?_
  rw [number_of_point hspan.2, hspan.1]
  by_cases hnone : tail.takeWhile Char.isDigit = []
  · have hnothing : byteCount (tail.takeWhile Char.isDigit) = 0 := by rw [hnone]; rfl
    rw [hnothing, Nat.add_zero, if_pos rfl, if_pos hnone, hnone]
    rw [List.append_assoc before] at hpoint
    have hcut := cut_agrees hpoint
    rw [byteCount_snoc rfl, ← Nat.add_assoc] at hcut
    exact hcut.next (.fault _)
  · have hsome := Lexer.byteCount_pos hnone
    rw [if_neg hnone, if_neg (by omega)]
    have hliteral : source.toList =
        before ++ (whole ++ '.' :: tail.takeWhile Char.isDigit) ++ tail.dropWhile Char.isDigit := by
      simp [h, hsplit]
    have hdigits := span_to_point hwhole (tail.takeWhile Char.isDigit)
    have hnumeral := numeral_agrees hdigits.1 (congrArg List.tail hdigits.2) hliteral
    rw [byteCount_append, byteCount_cons, ← Nat.add_assoc, ← Nat.add_assoc] at hnumeral
    exact hnumeral

theorem number_agrees (h : source.toList = before ++ rest) :
    Agrees source (number source (byteCount before))
      ((Lexer.number (byteCount before) rest).map (foundAt (byteCount before))) := by
  have hwhole : ∀ c ∈ rest.takeWhile Char.isDigit, c.isDigit = true :=
    List.all_eq_true.mp List.all_takeWhile
  have hsplit := List.takeWhile_append_dropWhile (p := Char.isDigit) (l := rest)
  have hbehind : source.toList =
      (before ++ rest.takeWhile Char.isDigit) ++ rest.dropWhile Char.isDigit := by
    rw [h, List.append_assoc, hsplit]
  have hascii : '.'.toNat < 128 := by decide
  have hpoint := isAt_agrees hascii hbehind
  rw [byteCount_append] at hpoint
  refine (skipWhile_agrees asciiTest_isDigit h).next (hpoint.next ?_)
  by_cases hhead : (rest.dropWhile Char.isDigit).head? = some '.'
  · obtain ⟨tail, htail⟩ := List.head?_eq_some_iff.mp hhead
    rw [if_pos (beq_iff_eq.mpr hhead)]
    rw [htail] at hbehind hsplit
    have hfractional := fractional_agrees hwhole hbehind
    rwa [hsplit] at hfractional
  · rw [if_neg (by simpa using hhead), Lexer.number]
    have hend : ∀ c ∈ ([] : List Char).head?, c.isDigit = false := by simp
    have hspan := Lexer.span_of_all hwhole hend
    rw [List.append_nil] at hspan
    have hnumeral := numeral_agrees hspan.1 (congrArg List.tail hspan.2) hbehind
    split
    · rename_i tail htail
      exact absurd (by rw [htail]; rfl) hhead
    · exact hnumeral

theorem stray_agrees {c : Char} (h : source.toList = before ++ c :: rest) :
    Agrees source (stray source (byteCount before))
      (.error (.strayCharacter c (byteCount before))) := by
  have hwhole : source.toList = before ++ c :: rest ++ [] := by rw [h, List.append_nil]
  have hcut := cut_agrees hwhole
  rw [byteCount_of_split h] at hcut
  refine hcut.next ?_
  rw [String.toList_ofList]
  exact .fault _

theorem not_digit_of_beyond {c : Char} (h : 128 ≤ c.toNat) : ¬(c.isDigit || c == '.') = true := by
  rw [Bool.or_eq_true, beq_iff_eq]
  rintro (hdigit | rfl)
  · exact absurd (lt_of_isDigit hdigit) (Nat.not_lt.mpr h)
  · exact absurd h (by decide)

theorem not_nameStart_of_beyond {c : Char} (h : 128 ≤ c.toNat) : ¬Lexer.isNameStart c = true :=
  fun hstart => absurd (lt_of_isNamePart (isNamePart_of_isNameStart hstart)) (Nat.not_lt.mpr h)

/-- No lexeme begins beyond ASCII. -/
theorem lexeme_beyond {c : Char} (h : 128 ≤ c.toNat) (position : Nat) :
    Lexer.lexeme position c rest = .error (.strayCharacter c position) := by
  unfold Lexer.lexeme
  split
  case h_14 => rw [if_neg (not_digit_of_beyond h), if_neg (not_nameStart_of_beyond h)]
  all_goals exact absurd h (by decide)

theorem lexeme_of_byte_beyond {c : Char} (h : 128 ≤ c.toNat) (start : Nat) :
    lexeme source start c = stray source start := by
  unfold lexeme
  split
  case h_14 => rw [if_neg (not_digit_of_beyond h), if_neg (not_nameStart_of_beyond h)]
  all_goals exact absurd h (by decide)

theorem lexeme_agrees {c : Char} {byte : UInt8} (hbyte : byte ∈ String.utf8EncodeChar c)
    (h : source.toList = before ++ c :: rest) :
    Agrees source (lexeme source (byteCount before) (Char.ofUInt8 byte))
      ((Lexer.lexeme (byteCount before) c rest).map (foundAt (byteCount before))) := by
  rcases ofUInt8_of_mem_encode hbyte with hself | ⟨hc, hd⟩
  · rw [hself]
    unfold Lexer.lexeme
    split
    case h_8 | h_9 | h_10 | h_11 => exact comparison_agrees (by simp) h
    case h_12 | h_13 => exact quoted_agrees (by decide) rfl h
    case h_14 =>
      unfold lexeme
      split
      case h_14 =>
        split
        · exact number_agrees h
        · split
          · rename_i hname
            exact name_agrees hname h
          · exact stray_agrees h
      all_goals exact absurd rfl (by assumption)
    all_goals exact .pure _
  · rw [lexeme_beyond hc, lexeme_of_byte_beyond hd]
    exact stray_agrees h

end Lexemes

section Tokens

variable {source : String} {before rest : List Char}

/-! ### Tokens -/

theorem utf8Size_of_isSeparator {c : Char} (h : Lexer.isSeparator c = true) : c.utf8Size = 1 := by
  rcases Lexer.isSeparator_cases h with rfl | rfl | rfl | rfl <;> rfl

theorem asciiTest_isSeparator : AsciiTest Lexer.isSeparator := by
  refine asciiTest_of_imp fun c hc => ?_
  rcases Lexer.isSeparator_cases hc with rfl | rfl | rfl | rfl <;> decide

/-- At the end of a text both scanners have come to its last token. -/
theorem finish_agrees {bound : Nat} (h : source.toList = before) :
    Agrees source (pure [⟨.finish, source.utf8ByteSize⟩])
      (Lexer.tokensFrom (byteCount before) bound []) := by
  have hend : byteCount before = source.utf8ByteSize := by rw [← h, byteCount_toList]
  rw [Lexer.Scans.finish.tokensFrom_eq (Nat.zero_le bound), hend]
  exact .pure _

/-- One step leads past some of the characters ahead.  The scanners agree if they do from
wherever that may be. -/
theorem tokensFrom_step {fuel bound : Nat} {c : Char} {tail : List Char}
    (h : source.toList = before ++ c :: tail)
    (hlater : ∀ passed ahead, passed ≠ [] → passed ++ ahead = c :: tail →
      Agrees source (tokensFrom source fuel (byteCount before + byteCount passed))
        (Lexer.tokensFrom (byteCount before + byteCount passed) bound ahead)) :
    Agrees source (tokensFrom source (fuel + 1) (byteCount before))
      (Lexer.tokensFrom (byteCount before) (bound + 1) (c :: tail)) := by
  have hsize := byteCount_of_split h
  have hpos := c.utf8Size_pos
  rw [byteCount_cons] at hsize
  obtain ⟨byte, hbyte, hread⟩ := exists_charAt_agrees h
  rw [tokensFrom, if_pos (by omega)]
  refine hread.next ?_
  rw [asciiTest_isSeparator.of_mem_encode hbyte]
  cases hseparator : Lexer.isSeparator c with
  | true =>
    have hone := utf8Size_of_isSeparator hseparator
    have hagrees := hlater [c] tail (List.cons_ne_nil c []) rfl
    rw [byteCount_cons, hone] at hagrees
    rw [if_pos rfl, Lexer.tokensFrom_separator hseparator, hone]
    exact hagrees
  | false =>
    have hlexeme := lexeme_agrees hbyte h
    rw [if_neg Bool.false_ne_true]
    cases hnext : Lexer.lexeme (byteCount before) c tail with
    | error cause =>
      rw [hnext] at hlexeme
      rw [Lexer.tokensFrom_refused hseparator hnext]
      exact hlexeme.stops
    | ok next =>
      have hagrees := hlater next.text next.rest (Lexer.reads_of_lexeme hnext).text_ne_nil
        (Lexer.text_append_rest hnext)
      rw [hnext] at hlexeme
      rw [Lexer.tokensFrom_lexeme hseparator hnext]
      exact hlexeme.next hagrees.map

/-- From a place between characters on the scanners agree, if neither of them comes to the
bound on its steps. -/
theorem tokensFrom_agrees {fuel bound : Nat} (h : source.toList = before ++ rest)
    (hfuel : byteCount rest ≤ fuel) (hbound : rest.length ≤ bound) :
    Agrees source (tokensFrom source fuel (byteCount before))
      (Lexer.tokensFrom (byteCount before) bound rest) := by
  induction fuel generalizing before rest bound with
  | zero =>
    have hnone : rest = [] := by
      by_contra hsome
      exact absurd (Lexer.byteCount_pos hsome) (Nat.not_lt.mpr hfuel)
    subst hnone
    exact finish_agrees (h.trans (List.append_nil before))
  | succ fuel ih =>
    cases rest with
    | nil =>
      have hend := byteCount_of_split h
      rw [tokensFrom, if_neg (by simp [← hend, byteCount])]
      exact finish_agrees (h.trans (List.append_nil before))
    | cons c tail =>
      obtain ⟨bound, rfl⟩ := Nat.exists_eq_add_of_le' (Nat.le_of_add_left_le hbound)
      refine tokensFrom_step h fun passed ahead hpassed hsplit => ?_
      have hbytes := congrArg byteCount hsplit
      have hlength := congrArg List.length hsplit
      have hpos := Lexer.byteCount_pos hpassed
      have hsome := List.length_pos_iff.mpr hpassed
      rw [byteCount_append] at hbytes
      rw [List.length_append] at hlength
      rw [← byteCount_append]
      exact ih (by rw [List.append_assoc, hsplit, h]) (by omega) (by omega)

theorem tokens_agrees (source : String) :
    Agrees source (tokens source) (Lexer.tokens source.toList) := by
  have hwhole : source.toList = [] ++ source.toList := rfl
  exact tokensFrom_agrees hwhole (Nat.le_of_eq (byteCount_toList source))
    (Nat.le_refl _)

end Tokens

/-! ### The reported character -/

/-- The fault tells that this character stands where it should not. -/
def Reports (fault : ParseFault) (c : Char) (position : Nat) : Prop :=
  fault = .strayCharacter c position ∨ fault = .loneMark c position

section Reported

variable {position offset : Nat} {c d : Char} {rest : List Char} {fault : ParseFault}

theorem fault_of_comparison (h : Lexer.comparison position c rest = .error fault) :
    fault = .loneMark c position := by
  unfold Lexer.comparison at h
  split at h
  case h_7 => exact (Except.error.inj h).symm
  all_goals cases h

theorem fault_of_quoted (h : Lexer.quoted position c rest = .error fault) :
    fault = .openString position := by
  unfold Lexer.quoted at h
  split at h
  · exact (Except.error.inj h).symm
  · cases h

theorem not_reports_of_numeral {text whole fraction : List Char}
    (h : Lexer.numeral position text whole fraction = .error fault) : ¬Reports fault d offset := by
  unfold Lexer.numeral at h
  split at h
  · cases h
    simp [Reports]
  · split at h <;> cases h
    simp [Reports]

theorem error_of_map_eq_error {α β : Type} {f : α → β} {result : Except ParseFault α}
    (h : result.map f = .error fault) : result = .error fault := by
  cases result <;> cases h
  rfl

/-- What is wrong with a number is told with its text, not with a character. -/
theorem not_reports_of_number {chars : List Char}
    (h : Lexer.number position chars = .error fault) : ¬Reports fault d offset := by
  unfold Lexer.number at h
  split at h
  · dsimp only at h
    split at h
    · cases h
      simp [Reports]
    · exact not_reports_of_numeral (error_of_map_eq_error h)
  · exact not_reports_of_numeral (error_of_map_eq_error h)

/-- A lexeme that is refused for one character is refused for the one it begins with. -/
theorem reported_of_lexeme (h : Lexer.lexeme position c rest = .error fault)
    (hreports : Reports fault d offset) : d = c ∧ offset = position := by
  have hself : ∀ {e : Char}, Reports fault e position → d = e ∧ offset = position := by
    rintro e (rfl | rfl) <;> simpa [Reports, eq_comm] using hreports
  unfold Lexer.lexeme at h
  split at h
  case h_8 | h_9 | h_10 | h_11 => exact hself (.inr (fault_of_comparison h))
  case h_12 | h_13 => simp [Reports, fault_of_quoted h] at hreports
  case h_14 =>
    split at h
    · exact absurd hreports (not_reports_of_number h)
    · split at h
      · cases h
      · exact hself (.inl (Except.error.inj h).symm)
  all_goals cases h

/-- The character that a fault reports stands where the fault says. -/
theorem exists_split_of_reports {source : String}
    (h : Lexer.tokens source.toList = .error fault) (hreports : Reports fault d offset) :
    ∃ front back : String, source = front ++ String.singleton d ++ back ∧
      front.utf8ByteSize = offset := by
  obtain ⟨position, c, rest, hpasses, -, hlexeme⟩ := Lexer.exists_passes_of_fault h
  obtain ⟨rfl, rfl⟩ := reported_of_lexeme hlexeme hreports
  obtain ⟨before, hsource, hposition⟩ := hpasses.exists_before
  refine ⟨String.ofList before, String.ofList rest, String.toList_injective ?_, ?_⟩
  · simp [hsource]
  · rw [← byteCount_toList, String.toList_ofList, hposition]

end Reported

/-! ### The scanner of bytes -/

/-- The scanner of bytes takes a text apart between its characters. -/
structure CutsBetweenCharacters (source : String) : Prop where
  /-- Every piece that it has cut out, or tried to, lies within the text and begins and ends
  where no character is cut through, whatever the scan comes to. -/
  fits : ∀ piece ∈ (tokens source).pieces, piece.Fits source
  /-- It comes to the tokens of the characters or to the fault that is in them, and never
  breaks off at an offset that the text does not have. -/
  result : (tokens source).result = (Lexer.tokens source.toList).mapError .fault
  /-- A character that it reports stands at the offset that it reports. -/
  reported : ∀ fault c position, (tokens source).result = .error (.fault fault) →
    Reports fault c position →
    ∃ front back : String, source = front ++ String.singleton c ++ back ∧
      front.utf8ByteSize = position

theorem cuts_between_characters (source : String) : CutsBetweenCharacters source where
  fits := (tokens_agrees source).fits
  result := (tokens_agrees source).result
  reported := by
    intro fault c position hresult hreports
    rw [(tokens_agrees source).result] at hresult
    cases htokens : Lexer.tokens source.toList with
    | ok result =>
      rw [htokens] at hresult
      cases hresult
    | error cause =>
      rw [htokens] at hresult
      cases hresult
      exact exists_split_of_reports htokens hreports

/-- Behind a string with a character of two bytes in it, one of three bytes is reported. -/
theorem cuts_between_characters_around_stray :
    Lexer.tokens "'é'+ €x".toList = .error (.strayCharacter '€' 6) ∧
      ∃ front back : String, "'é'+ €x" = front ++ String.singleton '€' ++ back ∧
        front.utf8ByteSize = 6 := by
  have htokens : Lexer.tokens "'é'+ €x".toList = .error (.strayCharacter '€' 6) := by
    decide +kernel
  have hcuts := cuts_between_characters "'é'+ €x"
  have hresult := hcuts.result
  rw [htokens] at hresult
  exact ⟨htokens, hcuts.reported _ _ _ hresult (.inl rfl)⟩

end DerivedTelemetry.ByteScanner
