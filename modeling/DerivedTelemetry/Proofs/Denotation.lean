import DerivedTelemetry.Function.Builtin
import DerivedTelemetry.Proofs.Function.Laziness
import DerivedTelemetry.Proofs.Validation
import Mathlib.Control.Monad.Basic

/-!
# Evaluation computes what an expression means

The evaluator reads, computes and asks the store in one pass.  For an expression that is
accepted this is the same as evaluating its tree: the same decimal or the same failure, and
the same requests in the same order.
-/

namespace DerivedTelemetry

open DerivedTelemetry.Derivation

/-! ### Calls of the logical functions -/

/-- What calls of `if`, `and` and `or` mean in an environment, in whatever case these names are
written. -/
structure Environment.DecidesLazily (env : Environment) : Prop where
  /-- The branch that is not chosen has no part in the meaning. -/
  condition : ∀ name, nameKey name = nameKey "if" → ∀ condition yes no : Comparison,
    (Factor.call name (.value condition (.value yes (.value no .nil)))).meaning env =
      condition.meaning env >>= fun value =>
        if value.value = 0 then no.meaning env else yes.meaning env
  /-- The first argument that is zero decides. -/
  conjunction : ∀ name, nameKey name = nameKey "and" → ∀ arguments : Arguments,
    arguments.meanings env ≠ [] →
      (Factor.call name arguments).meaning env =
        firstDeciding true .one .zero (arguments.meanings env)
  /-- The first argument that is not zero decides. -/
  disjunction : ∀ name, nameKey name = nameKey "or" → ∀ arguments : Arguments,
    arguments.meanings env ≠ [] →
      (Factor.call name arguments).meaning env =
        firstDeciding false .zero .one (arguments.meanings env)

namespace Builtin

theorem exists_if : ∃ entry, registry.lookup? "if" = some entry ∧
    entry.implementation = .lazy (.exact 3) Logic.ifThenElse := ⟨_, rfl, rfl⟩

theorem exists_and : ∃ entry, registry.lookup? "and" = some entry ∧
    entry.implementation = .lazy (.atLeast 1) Logic.and := ⟨_, rfl, rfl⟩

theorem exists_or : ∃ entry, registry.lookup? "or" = some entry ∧
    entry.implementation = .lazy (.atLeast 1) Logic.or := ⟨_, rfl, rfl⟩

end Builtin

/-- A call of a lazy function gives it the meanings of all arguments. -/
theorem meaning_call_of_lazy {env : Environment} (hregistry : env.registry = Builtin.registry)
    {name typed : String} (hname : nameKey typed = nameKey name) {arity : Arity}
    {strategy : Strategy}
    (hentry : ∃ entry, Builtin.registry.lookup? name = some entry ∧
      entry.implementation = .lazy arity strategy) (arguments : Arguments) :
    (Factor.call typed arguments).meaning env =
      strategy.meaning (arguments.meanings env).length (arguments.meanings env) := by
  obtain ⟨entry, hfound, himplementation⟩ := hentry
  have htyped : env.registry.lookup? typed = some entry := by
    rw [hregistry, Builtin.registry.lookup?_congr hname, hfound]
  rw [Factor.meaning, htyped]
  change entry.meaning env _ _ = _
  rw [Entry.meaning, himplementation]

theorem decidesLazily {env : Environment} (hregistry : env.registry = Builtin.registry) :
    env.DecidesLazily where
  condition name hname condition yes no := by
    rw [meaning_call_of_lazy hregistry hname Builtin.exists_if]
    exact Logic.meaning_ifThenElse _ _ _
  conjunction name hname arguments harguments := by
    rw [meaning_call_of_lazy hregistry hname Builtin.exists_and]
    exact Logic.meaning_variadic "and" true harguments
  disjunction name hname arguments harguments := by
    rw [meaning_call_of_lazy hregistry hname Builtin.exists_or]
    exact Logic.meaning_variadic "or" false harguments

namespace Engine

/-! ### Evaluations -/

theorem requests_failureTrace (expression : String) (result : Except Failure Decimal) :
    (failureTrace expression result).requests = [] := by
  rw [failureTrace.eq_def]
  split <;> rfl

theorem requests_evaluate (engine : Engine) (store : Store) (bindings : String → Option Decimal)
    (context : Option Context) (expression : String) :
    (engine.evaluate store bindings context expression).2.requests =
      (engine.run (engine.environment store bindings context) true expression).2.requests := by
  rw [evaluate]
  dsimp only
  rw [Trace.requests_append, requests_failureTrace, List.append_nil]

/-- The evaluation of a text with an admissible tree has the result and the requests that the
tree means. -/
theorem evaluate_of_derives {engine : Engine} {expression : String} {tokens : List Token}
    (htokens : engine.tokens expression = .ok tokens) {tree : Comparison}
    (hderives : Derives expression tokens tree) (hadmissible : tree.Admissible engine.registry)
    (hnesting : tree.nesting ≤ engine.settings.maxDepth) (store : Store)
    (bindings : String → Option Decimal) (context : Option Context) :
    let env := engine.environment store bindings context
    (engine.evaluate store bindings context expression).1 = (tree.meaning env).result ∧
      (engine.evaluate store bindings context expression).2.requests =
        (tree.meaning env).requests := by
  intro env
  obtain ⟨hresult, hrequests⟩ : _ ∧ (engine.run env true expression).2.requests =
      ((tree.meaning env).ifLive true).requests :=
    run_of_derives htokens hderives hadmissible hnesting true
  constructor
  · change (engine.run env true expression).1.map (·.1) = _
    rw [hresult]
    change ((tree.meaning env).result.map _).map _ = _
    cases (tree.meaning env).result <;> rfl
  · exact (requests_evaluate engine store bindings context expression).trans hrequests

/-- The evaluation of an expression that is accepted has the result and the requests of its
one tree, whatever the bindings, the context and the store.  In the meaning of a tree
comparisons are of values.  With the built-in functions only the chosen branch of a condition
is evaluated, and conjunctions and disjunctions end with the first argument that decides. -/
theorem evaluate_denotes (engine : Engine) {expression : String} {info : ExpressionInfo}
    (h : engine.validate expression = .ok info) :
    (∃ tokens tree, Derives expression tokens tree ∧
      (∀ others other, Derives expression others other → other = tree) ∧
      ∀ store bindings context,
        let env := engine.environment store bindings context
        (engine.evaluate store bindings context expression).1 = (tree.meaning env).result ∧
        (engine.evaluate store bindings context expression).2.requests =
          (tree.meaning env).requests) ∧
    (engine.registry = Builtin.registry →
      ∀ store bindings context, (engine.environment store bindings context).DecidesLazily) := by
  refine ⟨?_, fun hregistry store bindings context => decidesLazily hregistry⟩
  obtain ⟨tokens, tree, htokens, hderives, hadmissible, hnesting, -⟩ := validate_eq_ok.mp h
  exact ⟨tokens, tree, hderives, fun _ _ hother => (hderives.unique hother).2,
    evaluate_of_derives htokens hderives hadmissible hnesting⟩

/-- A condition on a variable chooses between a statistic, for which the store is asked once,
and a division by zero, for which it is not asked. -/
theorem evaluate_denotes_condition :
    let engine : Engine := ⟨Settings.standard, Builtin.registry⟩
    let expression := "IF(And(x > 1, x), avg(\"load\", \"1h\") * 2, 1 / 0)"
    let store : Store := fun _ => .ok [⟨⟨0, 0⟩, ⟨false, 3, 0⟩⟩, ⟨⟨60, 0⟩, ⟨false, 4, 0⟩⟩]
    let env (x : Nat) : Environment :=
      engine.environment store (fun _ => some (Decimal.ofNat x)) (some ⟨"pump", ⟨3600, 0⟩⟩)
    engine.validate expression = .ok ⟨["x"], ["and", "avg", "if"]⟩ ∧
      ∃ tokens tree, Derives expression tokens tree ∧
        (tree.meaning (env 2)).result = .ok ⟨false, 7000000000, 9⟩ ∧
        (tree.meaning (env 2)).requests = [⟨"pump", "load", ⟨0, 0⟩, ⟨3600, 0⟩⟩] ∧
        (tree.meaning (env 1)).result = .error (.fault (.arithmetic .divisionByZero)) ∧
        (tree.meaning (env 1)).requests = [] := by
  intro engine expression store env
  have haccepted : engine.validate expression = .ok ⟨["x"], ["and", "avg", "if"]⟩ := by
    decide +kernel
  obtain ⟨⟨tokens, tree, hderives, -, hmeaning⟩, -⟩ := evaluate_denotes engine haccepted
  have hchosen := hmeaning store (fun _ => some (Decimal.ofNat 2)) (some ⟨"pump", ⟨3600, 0⟩⟩)
  have hother := hmeaning store (fun _ => some (Decimal.ofNat 1)) (some ⟨"pump", ⟨3600, 0⟩⟩)
  refine ⟨haccepted, tokens, tree, hderives, ?_, ?_, ?_, ?_⟩
  · exact hchosen.1.symm.trans (by decide +kernel)
  · exact hchosen.2.symm.trans (by decide +kernel)
  · exact hother.1.symm.trans (by decide +kernel)
  · exact hother.2.symm.trans (by decide +kernel)

end Engine

end DerivedTelemetry
