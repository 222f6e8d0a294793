import DerivedTelemetry.Proofs.Expression.Lexemes

/-!
# Scanning

What the scanner does is said here without its bound on the number of steps: which lexemes
it cuts off a text, and where they stand.  Facts about tokens are proved along that run, one
case for a separator and one for a lexeme.  The scanner also stops at faults, so besides
there is the relation of a text to the places that the scanner comes by.
-/

namespace DerivedTelemetry.Lexer

/-- A lexeme in its place: the offset of its first byte, its characters, and what they are
read as. -/
structure Placed where
  start : Nat
  text : List Char
  symbol : Symbol

/-- The offset of the byte after the last one. -/
def Placed.stop (placed : Placed) : Nat := placed.start + byteCount placed.text

def Placed.token (placed : Placed) : Token := ⟨placed.symbol, placed.start⟩

/-- From an offset on, a text consists of these lexemes and of separators. -/
inductive Scans : Nat → List Char → List Placed → Prop where
  | finish {position : Nat} : Scans position [] []
  | separator {position : Nat} {c : Char} {rest : List Char} {lexemes : List Placed}
      (hseparator : isSeparator c = true)
      (hrest : Scans (position + c.utf8Size) rest lexemes) :
      Scans position (c :: rest) lexemes
  | lexeme {position : Nat} {c : Char} {rest : List Char} {next : Lexeme}
      {lexemes : List Placed} (hseparator : isSeparator c = false)
      (hnext : lexeme position c rest = .ok next)
      (hrest : Scans (position + byteCount next.text) next.rest lexemes) :
      Scans position (c :: rest) (⟨position, next.text, next.symbol⟩ :: lexemes)

/-- The scanner comes by an offset of a text, with the characters from there on ahead. -/
inductive Passes (source : List Char) : Nat → List Char → Prop where
  | start : Passes source 0 source
  | separator {position : Nat} {c : Char} {rest : List Char}
      (hbefore : Passes source position (c :: rest)) (hseparator : isSeparator c = true) :
      Passes source (position + c.utf8Size) rest
  | lexeme {position : Nat} {c : Char} {rest : List Char} {next : Lexeme}
      (hbefore : Passes source position (c :: rest)) (hseparator : isSeparator c = false)
      (hnext : lexeme position c rest = .ok next) :
      Passes source (position + byteCount next.text) next.rest

theorem byteCount_append (front back : List Char) :
    byteCount (front ++ back) = byteCount front + byteCount back := by
  induction front with
  | nil => simp [byteCount]
  | cons c rest ih => simp [byteCount, ih, Nat.add_assoc]

theorem byteCount_cons (c : Char) (rest : List Char) :
    byteCount (c :: rest) = c.utf8Size + byteCount rest := rfl

/-- A lexeme takes up some of what is ahead and leaves the rest. -/
theorem byteCount_of_lexeme {position : Nat} {c : Char} {rest : List Char} {next : Lexeme}
    (h : lexeme position c rest = .ok next) :
    byteCount next.text + byteCount next.rest = byteCount (c :: rest) := by
  rw [← byteCount_append, text_append_rest h]

theorem length_rest_lt {position : Nat} {c : Char} {rest : List Char} {next : Lexeme}
    (h : lexeme position c rest = .ok next) : next.rest.length ≤ rest.length := by
  have hlength := congrArg List.length (text_append_rest h)
  have hpos : 0 < next.text.length := List.length_pos_iff.mpr (reads_of_lexeme h).text_ne_nil
  rw [List.length_append, List.length_cons] at hlength
  omega

/-! ### The run of the scanner -/

theorem tokensFrom_separator {position fuel : Nat} {c : Char} {rest : List Char}
    (h : isSeparator c = true) :
    tokensFrom position (fuel + 1) (c :: rest) =
      tokensFrom (position + c.utf8Size) fuel rest := by
  rw [tokensFrom, if_pos h]

theorem tokensFrom_lexeme {position fuel : Nat} {c : Char} {rest : List Char} {next : Lexeme}
    (hseparator : isSeparator c = false) (h : lexeme position c rest = .ok next) :
    tokensFrom position (fuel + 1) (c :: rest) =
      (tokensFrom (position + byteCount next.text) fuel next.rest).map
        (⟨next.symbol, position⟩ :: ·) := by
  rw [tokensFrom, if_neg (by simp [hseparator]), h]
  rfl

theorem tokensFrom_refused {position fuel : Nat} {c : Char} {rest : List Char}
    {fault : ParseFault} (hseparator : isSeparator c = false)
    (h : lexeme position c rest = .error fault) :
    tokensFrom position (fuel + 1) (c :: rest) = .error fault := by
  rw [tokensFrom, if_neg (by simp [hseparator]), h]
  rfl

/-- The tokens of what can be scanned, as long as the bound on the steps is not reached. -/
theorem Scans.tokensFrom_eq {position fuel : Nat} {chars : List Char} {lexemes : List Placed}
    (h : Scans position chars lexemes) (hfuel : chars.length ≤ fuel) :
    tokensFrom position fuel chars =
      .ok (lexemes.map (·.token) ++ [⟨.finish, position + byteCount chars⟩]) := by
  induction h generalizing fuel with
  | finish => cases fuel <;> rfl
  | @separator position c rest lexemes hseparator _ ih =>
    obtain ⟨fuel, rfl⟩ := Nat.exists_eq_add_of_le' (Nat.le_of_add_left_le hfuel)
    rw [tokensFrom_separator hseparator, ih (Nat.le_of_succ_le_succ hfuel), byteCount_cons,
      Nat.add_assoc]
  | @lexeme position c rest next lexemes hseparator hnext _ ih =>
    obtain ⟨fuel, rfl⟩ := Nat.exists_eq_add_of_le' (Nat.le_of_add_left_le hfuel)
    have hrest : next.rest.length ≤ fuel :=
      Nat.le_trans (length_rest_lt hnext) (Nat.le_of_succ_le_succ hfuel)
    rw [tokensFrom_lexeme hseparator hnext, ih hrest, ← byteCount_of_lexeme hnext, Nat.add_assoc]
    rfl

/-- A lexeme that stands apart is cut off the front of the text. -/
theorem Scans.of_reads {position : Nat} {text after : List Char} {symbol : Symbol}
    {lexemes : List Placed} (h : Reads text symbol)
    (hafter : Apart after) (hrest : Scans (position + byteCount text) after lexemes) :
    Scans position (text ++ after) (⟨position, text, symbol⟩ :: lexemes) := by
  obtain ⟨c, tail, rfl, hseparator, hread⟩ := h
  exact .lexeme hseparator (hread position after hafter) hrest

/-- What is read as a symbol wherever it stands apart is read so by itself. -/
theorem tokens_of_reads {text : List Char} {symbol : Symbol} (h : Reads text symbol) :
    tokens text = .ok [⟨symbol, 0⟩, ⟨.finish, byteCount text⟩] := by
  have hend : Apart [] := by simp [Apart]
  have hscans : Scans 0 text [⟨0, text, symbol⟩] := by simpa using Scans.of_reads h hend .finish
  rw [tokens, hscans.tokensFrom_eq (Nat.le_refl _), Nat.zero_add]
  rfl

/-- A text can be scanned, or the scanner comes by a place where no lexeme is. -/
theorem tokensFrom_cases {position fuel : Nat} {chars : List Char} {source : List Char}
    (hpasses : Passes source position chars) (hfuel : chars.length ≤ fuel) :
    (∃ lexemes, Scans position chars lexemes) ∨
      ∃ start c rest fault, Passes source start (c :: rest) ∧ isSeparator c = false ∧
        lexeme start c rest = .error fault ∧ tokensFrom position fuel chars = .error fault := by
  induction fuel generalizing position chars with
  | zero =>
    obtain rfl := List.eq_nil_of_length_eq_zero (Nat.le_zero.mp hfuel)
    exact .inl ⟨[], .finish⟩
  | succ fuel ih =>
    cases chars with
    | nil => exact .inl ⟨[], .finish⟩
    | cons c rest =>
      have hrest : rest.length ≤ fuel := Nat.le_of_succ_le_succ hfuel
      cases hseparator : isSeparator c with
      | true =>
        rw [tokensFrom_separator hseparator]
        rcases ih (hpasses.separator hseparator) hrest with ⟨lexemes, hscans⟩ | hfault
        · exact .inl ⟨lexemes, .separator hseparator hscans⟩
        · exact .inr hfault
      | false =>
        cases hnext : lexeme position c rest with
        | error fault =>
          exact .inr ⟨position, c, rest, fault, hpasses, hseparator, hnext,
            tokensFrom_refused hseparator hnext⟩
        | ok next =>
          rw [tokensFrom_lexeme hseparator hnext]
          rcases ih (hpasses.lexeme hseparator hnext)
              (Nat.le_trans (length_rest_lt hnext) hrest) with
            ⟨lexemes, hscans⟩ | ⟨start, d, tail, fault, hpassed, hother, hfault, htokens⟩
          · exact .inl ⟨_, .lexeme hseparator hnext hscans⟩
          · exact .inr ⟨start, d, tail, fault, hpassed, hother, hfault, by rw [htokens]; rfl⟩

/-- The scanner comes by every lexeme. -/
theorem exists_passes_of_scans {source : List Char} {position : Nat} {chars : List Char}
    {lexemes : List Placed} (h : Scans position chars lexemes)
    (hpasses : Passes source position chars) :
    ∀ l ∈ lexemes, ∃ c rest next, Passes source l.start (c :: rest) ∧
      lexeme l.start c rest = .ok next ∧ l = ⟨l.start, next.text, next.symbol⟩ := by
  induction h with
  | finish => simp
  | separator hseparator _ ih => exact ih (hpasses.separator hseparator)
  | @lexeme position c rest next lexemes hseparator hnext _ ih =>
    intro l hl
    rcases List.mem_cons.mp hl with rfl | hlater
    · exact ⟨c, rest, next, hpasses, hnext, rfl⟩
    · exact ih (hpasses.lexeme hseparator hnext) l hlater

/-- The tokens of a text are its lexemes, and the end. -/
theorem exists_scans_of_tokens {chars : List Char} {result : List Token}
    (h : tokens chars = .ok result) :
    ∃ lexemes, Scans 0 chars lexemes ∧
      result = lexemes.map (·.token) ++ [⟨.finish, byteCount chars⟩] := by
  rcases tokensFrom_cases .start (Nat.le_refl chars.length) with
    ⟨lexemes, hscans⟩ | ⟨_, _, _, fault, _, _, _, hfault⟩
  · rw [tokens, hscans.tokensFrom_eq (Nat.le_refl _), Nat.zero_add] at h
    exact ⟨lexemes, hscans, (Except.ok.inj h).symm⟩
  · rw [tokens, hfault] at h
    cases h

/-- What is wrong with a text is wrong with a lexeme that the scanner has come to. -/
theorem exists_passes_of_fault {chars : List Char} {fault : ParseFault}
    (h : tokens chars = .error fault) :
    ∃ position c rest, Passes chars position (c :: rest) ∧ isSeparator c = false ∧
      lexeme position c rest = .error fault := by
  rcases tokensFrom_cases .start (Nat.le_refl chars.length) with
    ⟨lexemes, hscans⟩ | ⟨position, c, rest, cause, hpasses, hseparator, hcause, hfault⟩
  · rw [tokens, hscans.tokensFrom_eq (Nat.le_refl _)] at h
    cases h
  · rw [tokens, hfault] at h
    cases h
    exact ⟨position, c, rest, hpasses, hseparator, hcause⟩

/-- Offsets count the bytes of the characters that have been passed. -/
theorem Passes.exists_before {source : List Char} {position : Nat} {ahead : List Char}
    (h : Passes source position ahead) :
    ∃ before, source = before ++ ahead ∧ byteCount before = position := by
  induction h with
  | start => exact ⟨[], rfl, rfl⟩
  | @separator position c rest _ _ ih =>
    obtain ⟨before, hsource, hposition⟩ := ih
    refine ⟨before ++ [c], by simp [hsource], ?_⟩
    simp [byteCount_append, byteCount, hposition]
  | @lexeme position c rest next _ _ hnext ih =>
    obtain ⟨before, hsource, hposition⟩ := ih
    refine ⟨before ++ next.text, ?_, by rw [byteCount_append, hposition]⟩
    rw [List.append_assoc, text_append_rest hnext, hsource]

end DerivedTelemetry.Lexer
