import DerivedTelemetry.Engine
import DerivedTelemetry.Function.Builtin
import DerivedTelemetry.Proofs.Evaluation.Recognition
import DerivedTelemetry.Proofs.Evaluation.TreeReading

/-!
# What an engine accepts

An engine that checks an expression keeps no tree, and what it answers is a property of the
tree nevertheless.  It accepts exactly the texts that have an admissible derivation tree and
keep within its limits, and the names that it answers are those in the text.
-/

namespace DerivedTelemetry.Engine

open DerivedTelemetry.Derivation

/-- The text of an expression is derived by a tree. -/
structure Derives (expression : String) (tokens : List Token) (tree : Comparison) : Prop where
  tokenized : Lexer.tokens expression.toList = .ok tokens
  derived : tokens.map (·.symbol) = tree.yield ++ [.finish]

/-- A text has at most one tree. -/
theorem Derives.unique {expression : String} {tokens others : List Token} {tree other : Comparison}
    (h : Derives expression tokens tree) (hother : Derives expression others other) :
    others = tokens ∧ other = tree := by
  have htokens : others = tokens :=
    Except.ok.inj (hother.tokenized.symm.trans h.tokenized)
  subst htokens
  exact ⟨rfl, Comparison.yield_injective (hother.derived.symm.trans h.derived)⟩

variable {engine : Engine} {expression : String} {tokens : List Token}

theorem tokens_eq_ok : engine.tokens expression = .ok tokens ↔
    expression.toList.all Text.isBlank = false ∧
      expression.utf8ByteSize ≤ engine.settings.maxLength ∧
      Lexer.tokens expression.toList = .ok tokens := by
  rw [Engine.tokens]
  split
  · rename_i hlong
    exact ⟨nofun, fun h => absurd h.2.1 (Nat.not_le_of_lt hlong)⟩
  · rename_i hshort
    split
    · rename_i hblank
      exact ⟨nofun, fun h => absurd h.1 (by rw [hblank]; nofun)⟩
    · rename_i hblank
      exact ⟨fun h => ⟨Bool.eq_false_iff.mpr hblank, Nat.le_of_not_lt hshort, h⟩, fun h => h.2.2⟩

/-! ### Whole runs -/

section Runs

variable {store : Store} {bindings : String → Option Decimal} {context : Option Context}

/-- A run goes through the tokens of a text, if they can be read. -/
theorem run_of_tokens {env : Environment} {live : Bool}
    (h : engine.tokens expression = .ok tokens) :
    engine.run env live expression =
      ((Grammar.expression env (start live tokens)).1.map fun value =>
          (value, (Grammar.expression env (start live tokens)).2.info),
        (Grammar.expression env (start live tokens)).2.trace) := by
  rw [run, h]
  dsimp only
  rcases Grammar.expression env (start live tokens) with ⟨failure | value, after⟩ <;> rfl

/-- A run that succeeds has read the tokens of a text to their end. -/
theorem expression_of_run {env : Environment} {live : Bool} {given : Decimal × ExpressionInfo}
    (h : (engine.run env live expression).1 = .ok given) :
    ∃ tokens after, engine.tokens expression = .ok tokens ∧
      Grammar.expression env (start live tokens) = (.ok given.1, after) := by
  rw [run] at h
  split at h
  · cases h
  · rename_i tokens htokens
    split at h
    · rename_i value after hexpression
      cases h
      exact ⟨tokens, after, htokens, hexpression⟩
    · cases h

/-- A run over a text with an admissible tree has the result and the requests that the tree
means, and notes the names of the text. -/
theorem run_of_derives (htokens : engine.tokens expression = .ok tokens) {tree : Comparison}
    (hderives : Derives expression tokens tree) (hadmissible : tree.Admissible engine.registry)
    (hnesting : tree.nesting ≤ engine.settings.maxDepth) (live : Bool) :
    let env := engine.environment store bindings context
    (engine.run env live expression).1 = ((tree.meaning env).ifLive live).result.map
        (fun value => (value, noted engine.registry (tokens.map (·.symbol)) .empty)) ∧
      (engine.run env live expression).2.requests = ((tree.meaning env).ifLive live).requests := by
  intro env
  have hread : Yields engine.registry (Grammar.expression env) (start live tokens)
      ((tree.meaning env).ifLive live) [.finish] :=
    expression_yields (s := start live tokens) hadmissible hnesting rfl hderives.derived
  obtain ⟨after, hrun, hrequests, hreached⟩ := hread
  rw [run, htokens]
  simp only [hrun]
  cases hresult : ((tree.meaning env).ifLive live).result with
  | error failure =>
    rw [hresult] at hrun
    exact ⟨rfl, hrequests⟩
  | ok value =>
    have hend := hreached value hresult
    have hinfo : after.info = noted engine.registry (tokens.map (·.symbol)) .empty := by
      have hnames := hend.names
      rw [State.names, State.names, hend.symbols] at hnames
      exact hnames
    refine ⟨?_, hrequests⟩
    rw [← hinfo]
    rfl

/-- A run that only checks a text succeeds if and only if the text has an admissible
tree. -/
theorem checks_iff (hbindings : BindsNoFunction (engine.environment store bindings context)) :
    (∃ given, (engine.run (engine.environment store bindings context) false expression).1 =
        .ok given) ↔
      ∃ tokens tree, engine.tokens expression = .ok tokens ∧ Derives expression tokens tree ∧
        tree.Admissible engine.registry ∧ tree.nesting ≤ engine.settings.maxDepth := by
  constructor
  · rintro ⟨given, hrun⟩
    obtain ⟨tokens, after, htokens, hexpression⟩ := expression_of_run hrun
    obtain ⟨-, -, htokenized⟩ := tokens_eq_ok.mp htokens
    have hquiet : Quiet (start false tokens) := ⟨rfl, Lexer.terminated_tokens htokenized⟩
    obtain ⟨tree, hadmissible, hnesting, hsymbols⟩ :=
      expression_recognized hbindings hquiet hexpression
    exact ⟨tokens, tree, htokens, ⟨htokenized, hsymbols⟩, hadmissible, hnesting⟩
  · rintro ⟨tokens, tree, htokens, hderives, hadmissible, hnesting⟩
    exact ⟨_, (run_of_derives htokens hderives hadmissible hnesting false).1⟩

end Runs

theorem validate_eq_ok {info : ExpressionInfo} : engine.validate expression = .ok info ↔
    ∃ tokens tree, engine.tokens expression = .ok tokens ∧ Derives expression tokens tree ∧
      tree.Admissible engine.registry ∧ tree.nesting ≤ engine.settings.maxDepth ∧
      info = noted engine.registry (tokens.map (·.symbol)) .empty := by
  have hbindings : BindsNoFunction (engine.environment emptyStore (fun _ => none) none) :=
    fun _ _ => rfl
  constructor
  · intro h
    rw [validate] at h
    obtain ⟨given, hgiven⟩ : ∃ given, (engine.run
        (engine.environment emptyStore (fun _ => none) none) false expression).1 = .ok given := by
      cases hrun : (engine.run (engine.environment emptyStore (fun _ => none) none) false
          expression).1 with
      | error failure =>
        rw [hrun] at h
        cases h
      | ok given => exact ⟨given, rfl⟩
    obtain ⟨tokens, tree, htokens, hderives, hadmissible, hnesting⟩ :=
      (checks_iff hbindings).mp ⟨given, hgiven⟩
    refine ⟨tokens, tree, htokens, hderives, hadmissible, hnesting, ?_⟩
    rw [(run_of_derives htokens hderives hadmissible hnesting false).1] at h
    exact (Except.ok.inj h).symm
  · rintro ⟨tokens, tree, htokens, hderives, hadmissible, hnesting, rfl⟩
    rw [validate, (run_of_derives htokens hderives hadmissible hnesting false).1]
    rfl

/-- An expression is accepted if and only if it is not blank, not too long, and derived by
an admissible tree that does not nest too deep.  The names answered are then exactly the
bare names in the text and the registered names of the functions that are called. -/
theorem validate_iff_admissible (engine : Engine) (expression : String) :
    ((∃ info, engine.validate expression = .ok info) ↔
      expression.toList.all Text.isBlank = false ∧
      expression.utf8ByteSize ≤ engine.settings.maxLength ∧
      ∃ tokens tree, Derives expression tokens tree ∧ tree.Admissible engine.registry ∧
        tree.nesting ≤ engine.settings.maxDepth) ∧
    ∀ info, engine.validate expression = .ok info →
      ∃ tokens, Lexer.tokens expression.toList = .ok tokens ∧ info.IsAscending ∧
        (∀ name, name ∈ info.variableNames ↔ name ∈ bareNames (tokens.map (·.symbol))) ∧
        ∀ name, name ∈ info.functionNames ↔
          ∃ called ∈ calledNames (tokens.map (·.symbol)), ∃ entry,
            engine.registry.lookup? called = some entry ∧ entry.name = name := by
  constructor
  · constructor
    · rintro ⟨info, h⟩
      obtain ⟨tokens, tree, htokens, hderives, hadmissible, hnesting, -⟩ := validate_eq_ok.mp h
      obtain ⟨hblank, hlength, -⟩ := tokens_eq_ok.mp htokens
      exact ⟨hblank, hlength, tokens, tree, hderives, hadmissible, hnesting⟩
    · rintro ⟨hblank, hlength, tokens, tree, hderives, hadmissible, hnesting⟩
      have htokens := tokens_eq_ok.mpr ⟨hblank, hlength, hderives.tokenized⟩
      exact ⟨_, validate_eq_ok.mpr
        ⟨tokens, tree, htokens, hderives, hadmissible, hnesting, rfl⟩⟩
  · intro info h
    obtain ⟨tokens, tree, -, hderives, -, -, rfl⟩ := validate_eq_ok.mp h
    refine ⟨tokens, hderives.tokenized, ?_, ?_, ?_⟩
    · exact isAscending_noted _ _ ⟨.nil, .nil⟩
    · intro name
      rw [mem_variableNames_noted]
      exact or_iff_right List.not_mem_nil
    · intro name
      rw [mem_functionNames_noted]
      exact or_iff_right List.not_mem_nil

/-- The code of a window may have blanks around it and its letter in upper case, but it has to
be one of the six. -/
theorem validate_iff_admissible_of_code :
    let engine : Engine := ⟨Settings.standard, Builtin.registry⟩
    (engine.validate "avg(\"load\", \" 1H \")" = .ok ⟨[], ["avg"]⟩ ∧
      ∃ tokens tree, Derives "avg(\"load\", \" 1H \")" tokens tree ∧
        tree.Admissible Builtin.registry ∧ tree.nesting ≤ 64) ∧
    engine.validate "avg(\"load\", \"2h\")" = .error (.fault (.parse (.unknownWindow "2h"))) ∧
      ¬∃ tokens tree, Derives "avg(\"load\", \"2h\")" tokens tree ∧
        tree.Admissible Builtin.registry ∧ tree.nesting ≤ 64 := by
  intro engine
  have haccepted : engine.validate "avg(\"load\", \" 1H \")" = .ok ⟨[], ["avg"]⟩ := by
    decide +kernel
  have hrefused : engine.validate "avg(\"load\", \"2h\")" =
      .error (.fault (.parse (.unknownWindow "2h"))) := by
    decide +kernel
  refine ⟨⟨haccepted, ?_⟩, hrefused, ?_⟩
  · exact ((validate_iff_admissible engine _).1.mp ⟨_, haccepted⟩).2.2
  · intro hadmissible
    have hfits : "avg(\"load\", \"2h\")".toList.all Text.isBlank = false ∧
        "avg(\"load\", \"2h\")".utf8ByteSize ≤ engine.settings.maxLength := by
      decide +kernel
    obtain ⟨info, hinfo⟩ :=
      (validate_iff_admissible engine _).1.mpr ⟨hfits.1, hfits.2, hadmissible⟩
    rw [hrefused] at hinfo
    cases hinfo

end DerivedTelemetry.Engine
