import DerivedTelemetry.Engine
import DerivedTelemetry.Proofs.Evaluation.Foresight
import Mathlib.Control.Monad.Basic

/-!
# Configuration faults are found by checking

Whatever is wrong with the text of an expression is found when it is checked, before there
are any values, and is the same fault that every evaluation would end in.  An evaluation may
end earlier, because of its values, but it never complains of a text that was accepted.
-/

namespace DerivedTelemetry.Engine

variable {engine : Engine} {expression : String}

/-- What is known of a run once the text has been checked: the first result is that of the
run, the second one that of the check. -/
def ForeseenBut (excused : Failure → Prop) {α β : Type} :
    Except Failure α → Except Failure β → Prop
  | .ok _, .ok _ => True
  | .ok _, .error _ => False
  | .error e, .ok _ => excused e
  | .error e, .error f => excused e ∨ e = f

/-- A whole run is beside one that only checks. -/
theorem run_foreseen {excused : Failure → Prop} {first second : Environment}
    (hcarries : (foresight excused).Carries first second) (live : Bool) :
    ForeseenBut excused (engine.run first live expression).1
      (engine.run second false expression).1 := by
  rw [run, run]
  cases engine.tokens expression with
  | error cause => exact .inr rfl
  | ok tokens =>
    have hends := expression_coupled hcarries (start live tokens) (start false tokens)
      ⟨rfl, rfl, rfl⟩
    dsimp only
    rcases hfirst : Grammar.expression first (start live tokens) with ⟨e | v, s⟩ <;>
      rcases hsecond : Grammar.expression second (start false tokens) with ⟨f | w, t⟩ <;>
      rw [hfirst, hsecond] at hends
    · exact hends
    · exact hends
    · exact hends
    · trivial

theorem ForeseenBut.map {excused : Failure → Prop} {α α' β β' : Type}
    {evaluated : Except Failure α} {checked : Except Failure β}
    (h : ForeseenBut excused evaluated checked) (f : α → α') (g : β → β') :
    ForeseenBut excused (evaluated.map f) (checked.map g) := by
  cases evaluated <;> cases checked <;> exact h

/-- What is known of an evaluation once the text has been checked. -/
def Foreseen (evaluated : Except Failure Decimal) (checked : Except Failure ExpressionInfo) :
    Prop :=
  ForeseenBut (fun failure => failure.isConfiguration = false) evaluated checked

theorem evaluate_foreseen (hbenign : engine.registry.Benign) {store : Store}
    (hstore : store.Momentary) {bindings : String → Option Decimal} (context : Option Context)
    (hbindings : ∀ name, engine.registry.contains name = true → bindings name = none) :
    Foreseen (engine.evaluate store bindings context expression).1
      (engine.validate expression) := by
  let env := engine.environment store bindings context
  let unbound := engine.environment emptyStore (fun _ => none) none
  have hunbound : BindsAfter (fun failure => failure.isConfiguration = false) env unbound := by
    refine ⟨?_, fun _ _ _ hsome => nomatch hsome⟩
    intro name hname hsome
    rw [show env.bindings name = none from hbindings name hname] at hsome
    cases hsome
  have hcarries :
      (foresight fun failure => failure.isConfiguration = false).Carries env unbound :=
    foresight_carries rfl rfl (fun _ => hbenign) (fun _ h => h) hstore hunbound
  exact (run_foreseen hcarries true).map (·.1) (·.2)

/-- A run that only checks makes no request, whatever the store, and its result is that of
`validate`. -/
theorem run_checks (engine : Engine) (expression : String) (store : Store) :
    let run := engine.run (engine.environment store (fun _ => none) none) false expression
    run.1.map (·.2) = engine.validate expression ∧ run.2.requests = [] ∧
      ∀ failure, engine.validate expression = .error failure →
        failure.isConfiguration = true := by
  let first := engine.environment store (fun _ => none) none
  let second := engine.environment emptyStore (fun _ => none) none
  have hcarries : checking.Carries first second :=
    checking_carries rfl rfl rfl (fun _ _ => rfl) fun _ _ => rfl
  change (engine.run first false expression).1.map (·.2) =
      (engine.run second false expression).1.map (·.2) ∧
    (engine.run first false expression).2.requests = [] ∧
    ∀ failure, (engine.run second false expression).1.map (·.2) = .error failure →
      failure.isConfiguration = true
  rw [run, run]
  cases engine.tokens expression with
  | error cause =>
    refine ⟨rfl, rfl, ?_⟩
    rintro failure ⟨⟩
    rfl
  | ok tokens =>
    have hends := expression_coupled hcarries (start false tokens) (start false tokens)
      ⟨rfl, rfl, rfl⟩
    dsimp only
    rcases hfirst : Grammar.expression first (start false tokens) with ⟨e | v, s⟩ <;>
      rcases hsecond : Grammar.expression second (start false tokens) with ⟨f | w, t⟩ <;>
      rw [hfirst, hsecond] at hends
    · obtain ⟨rfl, hconfiguration, hrequests⟩ := hends.resolve_left not_false
      refine ⟨rfl, hrequests, ?_⟩
      rintro failure ⟨⟩
      exact hconfiguration
    · exact hends.elim
    · exact hends.elim
    · obtain ⟨-, rfl, -, hrequests⟩ := hends
      exact ⟨rfl, hrequests, nofun⟩

/-- With the built-in functions, and with bindings for none of their names and a store that
blames no configuration, every configuration fault of an evaluation is found by checking, and
what checking finds the evaluation ends in, unless it has failed because of its values.
Checking itself makes no request. -/
theorem validate_foresees (settings : Settings) (expression : String) (store : Store)
    (bindings : String → Option Decimal) (context : Option Context)
    (hstore : ∀ request failure, store request = .error failure →
      failure.isConfiguration = false)
    (hbindings : ∀ name, Builtin.registry.contains name = true → bindings name = none) :
    let engine : Engine := ⟨settings, Builtin.registry⟩
    let evaluated := (engine.evaluate store bindings context expression).1
    (∀ failure, evaluated = .error failure → failure.isConfiguration = true →
      engine.validate expression = .error failure) ∧
    (∀ failure, engine.validate expression = .error failure →
      failure.isConfiguration = true ∧ ∃ other, evaluated = .error other ∧
        (other = failure ∨ other.isConfiguration = false)) ∧
    (∀ info, engine.validate expression = .ok info →
      ∀ failure, evaluated = .error failure → failure.isConfiguration = false) ∧
    ∀ history,
      let checked := engine.run (engine.environment history (fun _ => none) none) false expression
      checked.1.map (·.2) = engine.validate expression ∧ checked.2.requests = [] := by
  intro engine evaluated
  have hforeseen : Foreseen evaluated (engine.validate expression) :=
    evaluate_foreseen Builtin.benign_registry hstore context hbindings
  refine ⟨?_, ?_, ?_, fun history =>
    ⟨(run_checks engine expression history).1, (run_checks engine expression history).2.1⟩⟩
  · intro failure hevaluated hfault
    rw [hevaluated] at hforeseen
    cases hvalidated : engine.validate expression with
    | ok info =>
      rw [hvalidated] at hforeseen
      exact absurd hfault (by rw [hforeseen]; nofun)
    | error other =>
      rw [hvalidated] at hforeseen
      rcases hforeseen with hmoment | rfl
      · exact absurd hfault (by rw [hmoment]; nofun)
      · rfl
  · intro failure hvalidated
    refine ⟨(run_checks engine expression store).2.2 failure hvalidated, ?_⟩
    rw [hvalidated] at hforeseen
    cases hevaluated : evaluated with
    | ok value =>
      rw [hevaluated] at hforeseen
      exact absurd hforeseen not_false
    | error other =>
      rw [hevaluated] at hforeseen
      exact ⟨other, rfl, hforeseen.symm⟩
  · intro info hvalidated failure hevaluated
    rw [hvalidated, hevaluated] at hforeseen
    exact hforeseen

/-- A store that is down hides that a function has too many arguments, which checking
finds. -/
theorem validate_foresees_behind_store :
    Engine.validate ⟨Settings.standard, Builtin.registry⟩ "avg(\"load\", \"1h\") + sqrt(x, 2)" =
        .error (.fault (.argumentCount "sqrt" (.exact 1) 2)) ∧
      ∃ other, (Engine.evaluate ⟨Settings.standard, Builtin.registry⟩
          (fun _ => .error (.fault (.store "down")))
          (fun name => if name = "x" then some Decimal.one else none) (some ⟨"pump", ⟨0, 0⟩⟩)
          "avg(\"load\", \"1h\") + sqrt(x, 2)").1 = .error other ∧
        (other = .fault (.argumentCount "sqrt" (.exact 1) 2) ∨ other.isConfiguration = false) := by
  have hchecked : Engine.validate ⟨Settings.standard, Builtin.registry⟩
      "avg(\"load\", \"1h\") + sqrt(x, 2)" =
      .error (.fault (.argumentCount "sqrt" (.exact 1) 2)) := by
    decide +kernel
  have hstore : ∀ (request : Request) (failure : Failure),
      (.error (.fault (.store "down")) : Except Failure (List Sample)) = .error failure →
      failure.isConfiguration = false := by
    rintro request failure ⟨⟩
    rfl
  have hbindings : ∀ name, Builtin.registry.contains name = true →
      (if name = "x" then some Decimal.one else none) = none := by
    intro name hname
    rw [if_neg]
    rintro rfl
    exact absurd hname (by decide +kernel)
  obtain ⟨-, hfound, -⟩ := validate_foresees Settings.standard
    "avg(\"load\", \"1h\") + sqrt(x, 2)" (fun _ => .error (.fault (.store "down")))
    (fun name => if name = "x" then some Decimal.one else none) (some ⟨"pump", ⟨0, 0⟩⟩) hstore
    hbindings
  exact ⟨hchecked, (hfound _ hchecked).2⟩

end DerivedTelemetry.Engine
