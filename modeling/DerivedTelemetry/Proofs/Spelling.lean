import DerivedTelemetry.Proofs.Evaluation.Lockstep
import DerivedTelemetry.Proofs.Denotation

/-!
# Spelling does not matter

Where the tokens of an expression stand and how the name of a function is typed is carried
along everywhere, and ends up in what is said of a fault.  It has no other effect.  Two texts
with the same symbols, up to the case of the names that are called, have the same value or
fail with faults of one kind, make the same requests, and refer to the same names.

A name that is not called is that of a variable, and is compared as it stands.
-/

namespace DerivedTelemetry

open Grammar

/-- The kind of a fault; none where the store broke off. -/
def Failure.kind? : Failure → Option Fault.Kind
  | .fault cause => some cause.kind
  | .broken => none

/-! ### Two runs over texts that are spelled alike -/

/-- The state of a run over a text beside one over another spelling of it. -/
structure State.Respells (s t : State) : Prop where
  ahead : Respelled s.ahead t.ahead
  live : s.live = t.live
  depth : s.depth = t.depth
  info : s.info = t.info
  trace : s.trace = t.trace

/-- Failures correspond that are of one kind and come after the same effects. -/
def respelling : Coupling where
  states := State.Respells
  agree e s f t := e.kind? = f.kind? ∧ s.trace = t.trace
  alone _ := False
  exact := True
  strict := False
  verbatim := False
  ahead := State.Respells.ahead
  literally hverbatim := hverbatim.elim
  moved h _ _ hahead _ := { h with ahead := hahead }
  noted h f := { h with info := congrArg f h.info }
  refused h _ hkind _ := ⟨congrArg some hkind, h.trace⟩

theorem lockstep_respelling (store : Store) : respelling.Lockstep store where
  exact := trivial
  lenient := id
  live := State.Respells.live
  switched h _ := { h with live := rfl }
  agreeSwitched h _ := h
  requested h _ := { h with trace := by rw [h.trace] }
  fetched h _ _ _ _ _ := { h with trace := by rw [h.trace] }
  failed h _ := ⟨rfl, h.trace⟩
  unanswered h _ _ _ := ⟨rfl, h.trace⟩

theorem respelling_carries (env : Environment) : respelling.Carries env env where
  toCarriesPhrases := (lockstep_respelling env.store).carriesPhrases env.maxDepth
  maxDepth := rfl
  nested hp := by
    apply Coupled.nested _ _ _ env.maxDepth hp
    · exact State.Respells.depth
    · exact fun h _ => { h with depth := rfl }
    · exact fun h _ _ => h

theorem mapError_map {ε ε' α β : Type} (f : α → β) (g : ε → ε') (result : Except ε α) :
    (result.map f).mapError g = (result.mapError g).map f := by
  cases result <;> rfl

/-! ### Blank texts -/

theorem Text.isBlank_eq_false_of_isAlphanum {c : Char} (h : c.isAlphanum = true) :
    isBlank c = false := by
  have hbounds : 0x30 ≤ c.toNat ∧ c.toNat ≤ 0x7a := by
    delta Char.isAlphanum Char.isAlpha Char.isUpper Char.isLower Char.isDigit at h
    simp only [Bool.or_eq_true, Bool.and_eq_true, decide_eq_true_eq, ge_iff_le,
      UInt32.le_iff_toNat_le] at h
    simp at h
    omega
  simp [isBlank, blankRanges]
  omega

namespace Lexer

theorem isBlank_of_isSeparator {c : Char} (h : isSeparator c = true) : Text.isBlank c = true := by
  simp only [isSeparator, Bool.or_eq_true, beq_iff_eq] at h
  rcases h with ((rfl | rfl) | rfl) | rfl <;> decide

/-- No lexeme begins with a blank. -/
theorem isBlank_eq_false_of_lexeme {position : Nat} {c : Char} {rest : List Char}
    {next : Lexeme} (h : lexeme position c rest = .ok next) : Text.isBlank c = false := by
  unfold lexeme at h
  split at h
  case h_14 =>
    split at h
    · rename_i hnumber
      rw [Bool.or_eq_true, beq_iff_eq] at hnumber
      rcases hnumber with hdigit | rfl
      · exact Text.isBlank_eq_false_of_isAlphanum (by rw [Char.isAlphanum, hdigit, Bool.or_true])
      · decide
    · split at h
      · rename_i hname
        rw [isNameStart, Bool.or_eq_true, beq_iff_eq] at hname
        rcases hname with halpha | rfl
        · exact Text.isBlank_eq_false_of_isAlphanum (by rw [Char.isAlphanum, halpha, Bool.true_or])
        · decide
      · cases h
  all_goals decide

/-- A text that can be read is blank if and only if there is no lexeme in it. -/
theorem Scans.all_isBlank_iff {position : Nat} {chars : List Char} {lexemes : List Placed}
    (h : Scans position chars lexemes) : chars.all Text.isBlank = true ↔ lexemes = [] := by
  induction h with
  | finish => simp
  | separator hseparator _ ih => simpa [isBlank_of_isSeparator hseparator] using ih
  | lexeme _ hnext _ _ => simp [isBlank_eq_false_of_lexeme hnext]

theorem all_isBlank_iff_of_tokens {chars : List Char} {result : List Token}
    (h : tokens chars = .ok result) : chars.all Text.isBlank = true ↔ result.length = 1 := by
  obtain ⟨lexemes, hscans, rfl⟩ := exists_scans_of_tokens h
  rw [hscans.all_isBlank_iff]
  simp

end Lexer

namespace Engine

variable {engine : Engine} {expression other : String} {tokens others : List Token}

/-- Of two spellings both are blank, or the tokens of both are read. -/
theorem tokens_respelled (hlength : expression.utf8ByteSize ≤ engine.settings.maxLength)
    (hlengthOther : other.utf8ByteSize ≤ engine.settings.maxLength)
    (htokens : Lexer.tokens expression.toList = .ok tokens)
    (hothers : Lexer.tokens other.toList = .ok others) (h : Respelled tokens others) :
    engine.tokens expression = .error .blank ∧ engine.tokens other = .error .blank ∨
      engine.tokens expression = .ok tokens ∧ engine.tokens other = .ok others := by
  have hblank : expression.toList.all Text.isBlank = other.toList.all Text.isBlank := by
    rw [Bool.eq_iff_iff, Lexer.all_isBlank_iff_of_tokens htokens,
      Lexer.all_isBlank_iff_of_tokens hothers, h.length_eq]
  rw [Engine.tokens, Engine.tokens, if_neg (Nat.not_lt_of_le hlength),
    if_neg (Nat.not_lt_of_le hlengthOther), hblank]
  by_cases hall : other.toList.all Text.isBlank = true
  · rw [if_pos hall, if_pos hall]
    exact .inl ⟨rfl, rfl⟩
  · rw [if_neg hall, if_neg hall]
    exact .inr ⟨htokens, hothers⟩

/-- Runs over two spellings have the same value and names or fail with faults of one kind,
after the same effects. -/
theorem run_respelled (hlength : expression.utf8ByteSize ≤ engine.settings.maxLength)
    (hlengthOther : other.utf8ByteSize ≤ engine.settings.maxLength)
    (htokens : Lexer.tokens expression.toList = .ok tokens)
    (hothers : Lexer.tokens other.toList = .ok others) (h : Respelled tokens others)
    (env : Environment) (live : Bool) :
    (engine.run env live expression).1.mapError Failure.kind? =
        (engine.run env live other).1.mapError Failure.kind? ∧
      (engine.run env live expression).2 = (engine.run env live other).2 := by
  rcases tokens_respelled hlength hlengthOther htokens hothers h with
    ⟨hblank, hblankOther⟩ | ⟨hread, hreadOther⟩
  · rw [run, run, hblank, hblankOther]
    exact ⟨rfl, rfl⟩
  · rw [run_of_tokens hread, run_of_tokens hreadOther]
    have hstart : State.Respells (start live tokens) (start live others) :=
      ⟨h, rfl, rfl, rfl, rfl⟩
    have hends := expression_coupled (respelling_carries env) _ _ hstart
    rcases hfirst : Grammar.expression env (start live tokens) with ⟨e | v, s⟩ <;>
      rcases hsecond : Grammar.expression env (start live others) with ⟨f | w, t⟩ <;>
      rw [hfirst, hsecond] at hends
    · obtain ⟨hkind, htrace⟩ := hends.resolve_left id
      exact ⟨congrArg Except.error hkind, htrace⟩
    · exact hends.elim
    · exact hends.elim
    · obtain ⟨hvalue, hafter⟩ := hends
      rw [hvalue trivial]
      dsimp only
      rw [hafter.info, hafter.trace]
      exact ⟨rfl, rfl⟩

/-- The spelling of an expression does not matter: neither where its symbols stand, nor the
kind of its quotes, nor how its numbers are written, nor the case of the names that are
called. -/
theorem spelling_irrelevant (engine : Engine)
    (hlength : expression.utf8ByteSize ≤ engine.settings.maxLength)
    (hlengthOther : other.utf8ByteSize ≤ engine.settings.maxLength)
    (htokens : Lexer.tokens expression.toList = .ok tokens)
    (hothers : Lexer.tokens other.toList = .ok others)
    (hsymbols : folded (tokens.map (·.symbol)) = folded (others.map (·.symbol))) :
    (∀ store bindings context,
      (engine.evaluate store bindings context expression).1.mapError Failure.kind? =
          (engine.evaluate store bindings context other).1.mapError Failure.kind? ∧
        (engine.evaluate store bindings context expression).2.requests =
          (engine.evaluate store bindings context other).2.requests) ∧
      (engine.validate expression).mapError Failure.kind? =
        (engine.validate other).mapError Failure.kind? := by
  have hruns := run_respelled hlength hlengthOther htokens hothers (respelled_of_folded_eq hsymbols)
  constructor
  · intro store bindings context
    obtain ⟨hresult, htrace⟩ := hruns (engine.environment store bindings context) true
    constructor
    · rw [evaluate, evaluate]
      dsimp only
      rw [mapError_map, mapError_map, hresult]
    · rw [requests_evaluate, requests_evaluate, htrace]
  · obtain ⟨hresult, -⟩ := hruns (engine.environment emptyStore (fun _ => none) none) false
    rw [validate, validate, mapError_map, mapError_map, hresult]

/-- A call in other blanks, quotes and case, and a number with a zero in front.  The name of
the variable is the same in both; in another case it would not be bound. -/
theorem spelling_irrelevant_of_call :
    let engine : Engine := ⟨Settings.standard, Builtin.registry⟩
    let expression := "avg(\"load\", '1h') * 1.50 + x"
    let other := " AvG ( 'load',\"1h\" )*01.50+x"
    (∃ tokens others, Lexer.tokens expression.toList = .ok tokens ∧
      Lexer.tokens other.toList = .ok others ∧ tokens ≠ others ∧
      folded (tokens.map (·.symbol)) = folded (others.map (·.symbol))) ∧
    (∀ store bindings context,
      (engine.evaluate store bindings context expression).1.mapError Failure.kind? =
          (engine.evaluate store bindings context other).1.mapError Failure.kind? ∧
        (engine.evaluate store bindings context expression).2.requests =
          (engine.evaluate store bindings context other).2.requests) ∧
    (engine.validate expression).mapError Failure.kind? =
      (engine.validate other).mapError Failure.kind? ∧
    let bindings := fun name => if name = "x" then some Decimal.one else none
    (engine.evaluate emptyStore bindings none "x").1 = .ok Decimal.one ∧
      (engine.evaluate emptyStore bindings none "X").1 =
        .error (.fault (.unknownVariable "X")) := by
  intro engine expression other
  let tokens : List Token :=
    [⟨.name "avg", 0⟩, ⟨.openParen, 3⟩, ⟨.quoted "load", 4⟩, ⟨.comma, 10⟩, ⟨.quoted "1h", 12⟩,
      ⟨.closeParen, 16⟩, ⟨.star, 18⟩, ⟨.number ⟨false, 150, 2⟩, 20⟩, ⟨.plus, 25⟩,
      ⟨.name "x", 27⟩, ⟨.finish, 28⟩]
  let others : List Token :=
    [⟨.name "AvG", 1⟩, ⟨.openParen, 5⟩, ⟨.quoted "load", 7⟩, ⟨.comma, 13⟩, ⟨.quoted "1h", 14⟩,
      ⟨.closeParen, 19⟩, ⟨.star, 20⟩, ⟨.number ⟨false, 150, 2⟩, 21⟩, ⟨.plus, 26⟩,
      ⟨.name "x", 27⟩, ⟨.finish, 28⟩]
  have htokens : Lexer.tokens expression.toList = .ok tokens := by decide +kernel
  have hothers : Lexer.tokens other.toList = .ok others := by decide +kernel
  have hsymbols : folded (tokens.map (·.symbol)) = folded (others.map (·.symbol)) := by
    decide +kernel
  have hlength : expression.utf8ByteSize ≤ engine.settings.maxLength := by decide +kernel
  have hlengthOther : other.utf8ByteSize ≤ engine.settings.maxLength := by decide +kernel
  obtain ⟨hevaluate, hvalidate⟩ :=
    spelling_irrelevant engine hlength hlengthOther htokens hothers hsymbols
  refine ⟨⟨tokens, others, htokens, hothers, by decide +kernel, hsymbols⟩, hevaluate, hvalidate,
    ?_, ?_⟩
  · decide +kernel
  · decide +kernel

end Engine

end DerivedTelemetry
