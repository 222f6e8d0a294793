import DerivedTelemetry.Proofs.ConfigurationFaults

/-!
# Configuration faults return

A configuration fault does not go away with other values, another time or another store.
The one exception is a function's name where a variable has to stand: it is a fault only as
long as nothing is bound to the name.

Two evaluations are compared through a check of the same text, in which every name counts
as bound that either of them binds.
-/

namespace DerivedTelemetry.Engine

/-- What other values can do about a failure: everything if it belongs to one moment, and
else no more than to bind a name that was refused as that of a function. -/
def Avoidable (others : String → Option Decimal) (failure : Failure) : Prop :=
  failure.isConfiguration = false ∨ ∃ name, (others name).isSome = true ∧
    failure = .fault (.parse (.functionAsVariable name))

variable {engine : Engine} {expression : String} {store otherStore : Store}
  {bindings others : String → Option Decimal} {context otherContext : Option Context}

/-- A failure that other values cannot avoid is found when the text is checked with the names
of both. -/
theorem checked_of_failed (hbenign : engine.registry.Benign) (hstore : store.Momentary)
    {failure : Failure}
    (hfailed : (engine.evaluate store bindings context expression).1 = .error failure)
    (hunavoidable : ¬ Avoidable others failure) :
    ∃ other, (engine.run (engine.environment emptyStore (united bindings others) none) false
      expression).1 = .error other := by
  let env := engine.environment store bindings context
  let checked := engine.environment emptyStore (united bindings others) none
  have hbindings : BindsAfter (Avoidable others) env checked := by
    refine ⟨fun name _ hbound => isSome_united_left others hbound, ?_⟩
    intro name _ hunbound hbound
    exact .inr ⟨name, isSome_of_united hbound hunbound, rfl⟩
  have hcarries : (foresight (Avoidable others)).Carries env checked :=
    foresight_carries rfl rfl (fun _ => hbenign) (fun _ h => .inl h)
      (fun request failure h => .inl (hstore request failure h)) hbindings
  have hforeseen : ForeseenBut (Avoidable others)
      (engine.evaluate store bindings context expression).1
      ((engine.run checked false expression).1.map (·.1)) :=
    (run_foreseen hcarries true).map (·.1) (·.1)
  rw [hfailed] at hforeseen
  cases hchecked : (engine.run checked false expression).1 with
  | ok result =>
    rw [hchecked] at hforeseen
    exact absurd hforeseen hunavoidable
  | error other => exact ⟨other, rfl⟩

/-- What a check finds, every evaluation fails in that binds no further names of functions,
whatever its functions, its store and its context. -/
theorem failed_of_checked {names : String → Option Decimal}
    (hnames : ∀ name, (others name).isSome = true → (names name).isSome = true)
    {failure : Failure}
    (hchecked : (engine.run (engine.environment emptyStore names none) false expression).1 =
      .error failure) :
    ∃ other, (engine.evaluate otherStore others otherContext expression).1 = .error other := by
  let env := engine.environment otherStore others otherContext
  let checked := engine.environment emptyStore names none
  have hcarries : (foresight fun _ => True).Carries env checked :=
    foresight_carries rfl rfl (fun ⟨_, hnever⟩ => absurd trivial hnever) (fun _ _ => trivial)
      (fun _ _ _ => trivial) ⟨fun name _ => hnames name, fun _ _ _ _ => trivial⟩
  have hforeseen : ForeseenBut (fun _ => True)
      (engine.evaluate otherStore others otherContext expression).1
      ((engine.run checked false expression).1.map (·.1)) :=
    (run_foreseen hcarries true).map (·.1) (·.1)
  rw [hchecked] at hforeseen
  cases hevaluated : (engine.evaluate otherStore others otherContext expression).1 with
  | ok value =>
    rw [hevaluated] at hforeseen
    exact hforeseen.elim
  | error other => exact ⟨other, rfl⟩

/-- With the built-in functions, and a store that blames no configuration, an evaluation that
ends in a configuration fault fails again with any other values, context and store, except
that a name that was refused as that of a function may be bound then. -/
theorem evaluate_fails_again (settings : Settings) (expression : String)
    (store otherStore : Store) (bindings others : String → Option Decimal)
    (context otherContext : Option Context) (failure : Failure)
    (hstore : ∀ request failure, store request = .error failure →
      failure.isConfiguration = false)
    (hfailed : (Engine.evaluate ⟨settings, Builtin.registry⟩ store bindings context
      expression).1 = .error failure)
    (hconfiguration : failure.isConfiguration = true)
    (hothers : ∀ name, failure = .fault (.parse (.functionAsVariable name)) →
      others name = none) :
    ∃ other, (Engine.evaluate ⟨settings, Builtin.registry⟩ otherStore others otherContext
      expression).1 = .error other := by
  have hunavoidable : ¬ Avoidable others failure := by
    rintro (hmoment | ⟨name, hbound, hname⟩)
    · rw [hconfiguration] at hmoment
      cases hmoment
    · rw [hothers name hname] at hbound
      cases hbound
  obtain ⟨found, hchecked⟩ :=
    checked_of_failed Builtin.benign_registry hstore hfailed hunavoidable
  exact failed_of_checked (fun name => isSome_united_right bindings) hchecked

/-- A number after a closed parenthesis is a mistake with any value of the variable before it,
also where the store is down. -/
theorem evaluate_fails_again_after_close :
    ∃ other, (Engine.evaluate ⟨Settings.standard, Builtin.registry⟩
      (fun _ => .error (.fault (.store "down")))
      (fun name => if name = "x" then some Decimal.one else none) (some ⟨"pump", ⟨0, 0⟩⟩)
      "(count(\"load\", \"1h\") + x) 2").1 = .error other := by
  refine evaluate_fails_again Settings.standard "(count(\"load\", \"1h\") + x) 2" emptyStore _
    (fun name => if name = "x" then some Decimal.zero else none) _ (some ⟨"fan", ⟨0, 0⟩⟩) _
    (.fault (.parse (.unexpected (.number ⟨false, 2, 0⟩) 26))) ?_ ?_ rfl ?_
  · rintro request failure ⟨⟩
  · decide +kernel
  · rintro name ⟨⟩

/-- The name of a function is refused as a variable while it is not bound, and is one like any
other as soon as it is. -/
theorem refused_name_may_be_bound :
    (Engine.evaluate ⟨Settings.standard, Builtin.registry⟩ emptyStore (fun _ => none) none
        "count * 2").1 = .error (.fault (.parse (.functionAsVariable "count"))) ∧
      (Failure.fault (.parse (.functionAsVariable "count"))).isConfiguration = true ∧
      (Engine.evaluate ⟨Settings.standard, Builtin.registry⟩ emptyStore
        (fun name => if name = "count" then some ⟨false, 3, 0⟩ else none) none
        "count * 2").1 = .ok ⟨false, 6, 0⟩ := by
  decide +kernel

end DerivedTelemetry.Engine
