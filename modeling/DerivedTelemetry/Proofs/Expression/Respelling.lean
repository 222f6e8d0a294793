import DerivedTelemetry.Evaluation.ArgumentCount
import DerivedTelemetry.Evaluation.Machine

/-!
# The same expression in another spelling

Blanks, the kind of quotes, zeros around a number and the case of a name that is called are
a matter of spelling.  Two texts differ in nothing else if they have the same symbols once
every called name is written in lower case; where the symbols stand plays no part.

This module compares such texts token by token, from the left.  A name may differ only in
front of an opening parenthesis, so whoever takes a name that differs finds the parenthesis
next.  Counting arguments ahead looks at no name and so comes to the same count in both.
-/

namespace DerivedTelemetry

/-- A name in the lower case that look-up compares. -/
def Symbol.lowered : Symbol → Symbol
  | .name text => .name (String.ofList (nameKey text))
  | symbol => symbol

/-- The symbols of an expression with every name that is called in lower case. -/
def folded : List Symbol → List Symbol
  | [] => []
  | symbol :: rest =>
    (if rest.head? = some .openParen then symbol.lowered else symbol) :: folded rest

/-- Tokens that differ only in where they stand and in the case of names that are called. -/
inductive Respelled : List Token → List Token → Prop
  | nil : Respelled [] []
  | same {token other : Token} {rest others : List Token}
      (hsymbol : token.symbol = other.symbol) (hrest : Respelled rest others) :
      Respelled (token :: rest) (other :: others)
  | called {token other opening : Token} {rest others : List Token} {name typed : String}
      (hname : token.symbol = .name name) (htyped : other.symbol = .name typed)
      (hkey : nameKey name = nameKey typed) (hopening : opening.symbol = .openParen)
      (hrest : Respelled (opening :: rest) others) :
      Respelled (token :: opening :: rest) (other :: others)

/-- Symbols that are equal, or two names.  Where no name is looked for, this is as good as
being equal. -/
def Symbol.Resembles (symbol other : Symbol) : Prop :=
  symbol = other ∨ ∃ name typed, symbol = .name name ∧ other = .name typed

theorem Symbol.Resembles.isComparison_eq {symbol other : Symbol} (h : symbol.Resembles other) :
    symbol.isComparison = other.isComparison := by
  rcases h with rfl | ⟨name, typed, rfl, rfl⟩ <;> rfl

/-! ### From symbols to tokens -/

theorem Symbol.lowered_eq_openParen {symbol : Symbol} :
    symbol.lowered = .openParen ↔ symbol = .openParen := by
  cases symbol <;> simp [lowered]

theorem Symbol.eq_or_names_of_lowered_eq {symbol other : Symbol}
    (h : symbol.lowered = other.lowered) : symbol = other ∨
      ∃ name typed, symbol = .name name ∧ other = .name typed ∧ nameKey name = nameKey typed := by
  cases symbol <;> cases other <;> simp_all [lowered, String.ofList_inj]

theorem head?_folded_eq_openParen (symbols : List Symbol) :
    (folded symbols).head? = some .openParen ↔ symbols.head? = some .openParen := by
  cases symbols with
  | nil => simp [folded]
  | cons symbol rest =>
    by_cases hopen : rest.head? = some .openParen
    · simp [folded, hopen, Symbol.lowered_eq_openParen]
    · simp [folded, hopen]

theorem respelled_of_folded_eq {tokens others : List Token}
    (h : folded (tokens.map (·.symbol)) = folded (others.map (·.symbol))) :
    Respelled tokens others := by
  induction tokens generalizing others with
  | nil =>
    cases others with
    | nil => exact .nil
    | cons other others => simp [folded] at h
  | cons token rest ih =>
    cases others with
    | nil => simp [folded] at h
    | cons other others =>
      simp only [List.map_cons, folded, List.cons.injEq] at h
      obtain ⟨hhead, htail⟩ := h
      have hrest := ih htail
      have hopens : (rest.map (·.symbol)).head? = some .openParen ↔
          (others.map (·.symbol)).head? = some .openParen := by
        rw [← head?_folded_eq_openParen, htail, head?_folded_eq_openParen]
      by_cases hopen : (rest.map (·.symbol)).head? = some .openParen
      · rw [if_pos hopen, if_pos (hopens.mp hopen)] at hhead
        rcases Symbol.eq_or_names_of_lowered_eq hhead
          with hsame | ⟨name, typed, hname, htyped, hkey⟩
        · exact .same hsame hrest
        · cases rest with
          | nil => simp at hopen
          | cons opening rest => exact .called hname htyped hkey (by simpa using hopen) hrest
      · rw [if_neg hopen, if_neg fun hother => hopen (hopens.mpr hother)] at hhead
        exact .same hhead hrest

/-! ### Side by side -/

namespace Respelled

variable {tokens others : List Token}

theorem refl : ∀ tokens : List Token, Respelled tokens tokens
  | [] => .nil
  | _ :: rest => .same rfl (refl rest)

theorem length_eq (h : Respelled tokens others) : tokens.length = others.length := by
  induction h with
  | nil => rfl
  | same _ _ ih => simp [ih]
  | called _ _ _ _ _ ih => simpa using ih

/-- The last token is passed in neither. -/
theorem passed (h : Respelled tokens others) :
    Respelled (Eval.passed tokens) (Eval.passed others) := by
  cases h with
  | nil => exact .nil
  | same hsymbol hrest =>
    cases hrest with
    | nil => exact .same hsymbol .nil
    | same hnext hrest => exact .same hnext hrest
    | called hname htyped hkey hopening hrest => exact .called hname htyped hkey hopening hrest
  | called hname htyped hkey hopening hrest =>
    cases hrest with
    | same hnext hrest => exact .same hnext hrest
    | called hother => exact absurd (hopening.symm.trans hother) (by simp)

/-- What comes next is the same symbol, or a name in two spellings with a parenthesis behind
it. -/
theorem next (h : Respelled tokens others) :
    (tokens.headD Eval.endToken).symbol = (others.headD Eval.endToken).symbol ∨
      ∃ name typed, (tokens.headD Eval.endToken).symbol = .name name ∧
        (others.headD Eval.endToken).symbol = .name typed ∧ nameKey name = nameKey typed ∧
        ((Eval.passed tokens).headD Eval.endToken).symbol = .openParen := by
  cases h with
  | nil => exact .inl rfl
  | same hsymbol _ => exact .inl hsymbol
  | called hname htyped hkey hopening _ =>
    exact .inr ⟨_, _, hname, htyped, hkey, hopening⟩

theorem next_resembles (h : Respelled tokens others) :
    (tokens.headD Eval.endToken).symbol.Resembles (others.headD Eval.endToken).symbol := by
  rcases h.next with hsame | ⟨name, typed, hname, htyped, -⟩
  · exact .inl hsame
  · exact .inr ⟨name, typed, hname, htyped⟩

theorem opens (h : Respelled tokens others)
    (hopen : (tokens.headD Eval.endToken).symbol = .openParen) :
    (others.headD Eval.endToken).symbol = .openParen := by
  rcases h.next_resembles with hsame | ⟨name, typed, hname, -⟩
  · exact hsame.symm.trans hopen
  · exact absurd (hopen.symm.trans hname) (by simp)

end Respelled

/-! ### Counting ahead -/

/-- Two counts of arguments that come to the same, or fail both. -/
def ArgumentCount.SameCount : ArgumentCount.Scan → ArgumentCount.Scan → Prop
  | .ok (count, _), .ok (other, _) => count = other
  | .error _, .error _ => True
  | _, _ => False

theorem ArgumentCount.scan_respelled {tokens others : List Token} (h : Respelled tokens others)
    (function : String) (position place nesting count : Nat) (fresh : Bool) :
    SameCount (scan function position nesting count fresh tokens)
      (scan function place nesting count fresh others) := by
  induction h generalizing nesting count fresh with
  | nil => cases nesting <;> simp [scan, SameCount]
  | @same token other rest others hsymbol _ ih =>
    cases nesting with
    | zero =>
      rw [scan, scan, ← hsymbol]
      split
      · split <;> simp [SameCount]
      · split
        · simp [SameCount]
        · exact ih _ _ _
      · simp [SameCount]
      · exact ih _ _ _
      · exact ih _ _ _
    | succ nesting =>
      rw [scan, scan, ← hsymbol]
      split
      · exact ih _ _ _
      · exact ih _ _ _
      · simp [SameCount]
      · exact ih _ _ _
  | called hname htyped _ _ _ ih =>
    -- A name counts like any other symbol, whatever it is.
    cases nesting with
    | zero =>
      rw [scan.eq_def, scan.eq_def]
      simp only [hname, htyped]
      exact ih _ _ _
    | succ nesting =>
      rw [scan.eq_def, scan.eq_def]
      simp only [hname, htyped]
      exact ih _ _ _

end DerivedTelemetry
