import DerivedTelemetry.Proofs.Expression.Scanning

/-!
# Where a phrase ends

A phrase of the grammar ends where the next symbol cannot belong to it any more.  A name
goes on with an opening parenthesis, a product with `*`, a sum with `+` and a comparison
with `<`: the looser a symbol binds, the larger the phrases that it ends.  The text as a
whole is ended by the one symbol that stands last and nowhere else.
-/

namespace DerivedTelemetry

/-- How loosely a symbol binds what stands before it.  Symbols that bind nothing before
them are the loosest. -/
def Symbol.looseness : Symbol → Nat
  | .openParen => 0
  | .star | .slash => 1
  | .plus | .minus => 2
  | .greater | .less | .greaterEqual | .lessEqual | .equal | .notEqual => 3
  | _ => 4

theorem Symbol.looseness_of_isComparison {symbol : Symbol} (h : symbol.isComparison = true) :
    symbol.looseness = 3 := by
  cases symbol <;> first | rfl | cases h

theorem Symbol.isComparison_of_looseness {symbol : Symbol} (h : 4 ≤ symbol.looseness) :
    symbol.isComparison = false := by
  cases symbol <;> first | rfl | exact absurd h (by decide)

/-- The symbols that a factor may begin with. -/
def Symbol.beginsFactor : Symbol → Bool
  | .plus | .minus | .number _ | .openParen | .name _ => true
  | _ => false

/-- Something follows, and it begins with a symbol that binds at least so loosely. -/
def Stops (looseness : Nat) : List Symbol → Prop
  | [] => False
  | symbol :: _ => looseness ≤ symbol.looseness

theorem Stops.mono {loose looser : Nat} {rest : List Symbol} (h : Stops looser rest)
    (hle : loose ≤ looser) : Stops loose rest := by
  cases rest with
  | nil => exact h
  | cons symbol rest => exact Nat.le_trans hle h

theorem Stops.cons {looseness : Nat} {symbol : Symbol} (rest : List Symbol)
    (h : looseness ≤ symbol.looseness) : Stops looseness (symbol :: rest) := h

/-- An opening parenthesis may always belong to the name before it. -/
theorem not_stops_openParen (rest : List Symbol) : ¬ Stops 1 (.openParen :: rest) :=
  Nat.not_succ_le_zero 0

theorem Stops.exists_cons {looseness : Nat} {rest : List Symbol} (h : Stops looseness rest) :
    ∃ symbol tail, rest = symbol :: tail ∧ looseness ≤ symbol.looseness := by
  cases rest with
  | nil => exact absurd h not_false
  | cons symbol tail => exact ⟨symbol, tail, rfl, h⟩

/-- The end of the text comes last, and only there. -/
def Terminated (symbols : List Symbol) : Prop :=
  ∃ body, symbols = body ++ [.finish] ∧ Symbol.finish ∉ body

theorem Terminated.ne_nil {symbols : List Symbol} (h : Terminated symbols) : symbols ≠ [] := by
  obtain ⟨body, rfl, -⟩ := h
  simp

theorem Terminated.tail {symbol : Symbol} {rest : List Symbol}
    (h : Terminated (symbol :: rest)) (hsymbol : symbol ≠ .finish) : Terminated rest := by
  obtain ⟨body, hbody, hfinish⟩ := h
  cases body with
  | nil =>
    cases hbody
    exact absurd rfl hsymbol
  | cons first body =>
    cases hbody
    exact ⟨body, rfl, fun hmem => hfinish (List.mem_cons_of_mem _ hmem)⟩

theorem Terminated.eq_nil {rest : List Symbol} (h : Terminated (.finish :: rest)) :
    rest = [] := by
  obtain ⟨body, hbody, hfinish⟩ := h
  cases body with
  | nil =>
    cases hbody
    rfl
  | cons first body =>
    cases hbody
    exact absurd List.mem_cons_self hfinish

/-- Whatever follows somewhere in the text comes to the same end. -/
theorem Terminated.behind {front rest : List Symbol} (h : Terminated (front ++ rest))
    (hrest : rest ≠ []) : Terminated rest := by
  induction front with
  | nil => exact h
  | cons symbol front ih =>
    refine ih (h.tail ?_)
    rintro rfl
    exact hrest (List.append_eq_nil_iff.mp h.eq_nil).2

/-! ### Texts -/

/-- A symbol that some text spells: it is not the end, and a number has digits. -/
def Symbol.Spelled : Symbol → Prop
  | .finish => False
  | .number value => ∃ whole fraction, Decimal.ofDigits whole fraction = .ok value
  | _ => True

theorem Symbol.Spelled.ne_finish {symbol : Symbol} (h : symbol.Spelled) : symbol ≠ .finish := by
  rintro rfl
  exact h

namespace Lexer

theorem spelled_of_numeral {position : Nat} {text whole fraction : List Char} {symbol : Symbol}
    (h : numeral position text whole fraction = .ok symbol) : symbol.Spelled := by
  rw [numeral] at h
  split at h
  · cases h
  · rename_i value hdigits
    split at h
    · cases h
    · cases h
      exact ⟨whole, fraction, hdigits⟩

/-- Every lexeme spells a symbol. -/
theorem spelled_of_lexeme {position : Nat} {c : Char} {rest : List Char} {next : Lexeme}
    (h : lexeme position c rest = .ok next) : next.symbol.Spelled := by
  unfold lexeme at h
  split at h
  case h_8 | h_9 | h_10 | h_11 =>
    unfold comparison at h
    split at h <;> cases h <;> exact trivial
  case h_12 | h_13 =>
    unfold quoted at h
    split at h
    · cases h
    · cases h
      exact trivial
  case h_14 =>
    split at h
    · rename_i hnumber
      obtain ⟨literal, -, hsymbol⟩ := exists_numeral_of_number (by simpa using hnumber) h
      exact spelled_of_numeral hsymbol
    · split at h
      · cases h
        exact trivial
      · cases h
  all_goals
    cases h
    exact trivial

theorem Scans.spelled {position : Nat} {chars : List Char} {lexemes : List Placed}
    (h : Scans position chars lexemes) : ∀ placed ∈ lexemes, placed.symbol.Spelled := by
  induction h with
  | finish => simp
  | separator _ _ ih => exact ih
  | lexeme _ hnext _ ih => simpa using ⟨spelled_of_lexeme hnext, ih⟩

/-- The end of the text is behind everything that the text spells. -/
theorem exists_spelled_of_tokens {chars : List Char} {result : List Token}
    (h : tokens chars = .ok result) :
    ∃ body, result.map (·.symbol) = body ++ [.finish] ∧ ∀ symbol ∈ body, symbol.Spelled := by
  obtain ⟨lexemes, hscans, rfl⟩ := exists_scans_of_tokens h
  refine ⟨lexemes.map (·.symbol), by simp [Placed.token], ?_⟩
  simpa using hscans.spelled

theorem terminated_tokens {chars : List Char} {result : List Token}
    (h : tokens chars = .ok result) : Terminated (result.map (·.symbol)) := by
  obtain ⟨body, hbody, hspelled⟩ := exists_spelled_of_tokens h
  exact ⟨body, hbody, fun hfinish => (hspelled _ hfinish).ne_finish rfl⟩

/-- The numbers among the tokens of a text have been read from digits in it. -/
theorem exists_digits_of_tokens {chars : List Char} {result : List Token}
    (h : tokens chars = .ok result) {value : Decimal}
    (hvalue : Symbol.number value ∈ result.map (·.symbol)) :
    ∃ whole fraction, Decimal.ofDigits whole fraction = .ok value := by
  obtain ⟨body, hbody, hspelled⟩ := exists_spelled_of_tokens h
  rw [hbody] at hvalue
  rcases List.mem_append.mp hvalue with hmem | hlast
  · exact hspelled _ hmem
  · cases List.mem_singleton.mp hlast

end Lexer

end DerivedTelemetry
