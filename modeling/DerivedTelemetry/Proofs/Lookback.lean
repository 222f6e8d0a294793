import DerivedTelemetry.Proofs.ArrivalLog
import DerivedTelemetry.Synthetic

/-!
# What an evaluation looks back on

An evaluation at one time for one device sees no other device, nothing later than that
time, and nothing from before its longest window.  Two histories that agree on the rest
cannot be told apart by any expression.

All that an evaluation asks of its store is windows of its context, and the longest window
begins first.  This holds to the beginning of the calendar, where windows are cut off.
-/

namespace DerivedTelemetry

/-! ### Windows are nested -/

theorem Timestamp.ofElapsed_le {a b : Int} (h : a ≤ b) : ofElapsed a ≤ ofElapsed b := by
  change a / perSecond < b / perSecond ∨ a / perSecond = b / perSecond ∧
    (a % perSecond).toNat ≤ (b % perSecond).toNat
  rw [perSecond]
  omega

/-- More minutes lead no later, also where they lead before the first point. -/
theorem Timestamp.minutesBefore_le (t : Timestamp) {fewer more : Nat} (h : fewer ≤ more) :
    t.minutesBefore more ≤ t.minutesBefore fewer := by
  have hearlier : ofElapsed (t.elapsed - more * 60 * perSecond) ≤
      ofElapsed (t.elapsed - fewer * 60 * perSecond) := by
    apply ofElapsed_le
    rw [perSecond]
    omega
  rw [minutesBefore, minutesBefore]
  split
  · rename_i hmore
    split
    · exact le_refl first
    · rename_i hfewer
      exact not_not.mp fun hlater => hfewer (Timestamp.not_le.mp hlater)
  · rename_i hmore
    split
    · rename_i hfewer
      exact absurd (lt_of_le_of_lt hearlier hfewer) hmore
    · exact hearlier

theorem Window.minutes_le_thirtyDays (window : Window) :
    window.minutes ≤ Window.thirtyDays.minutes := by
  cases window <;> decide

/-- No window begins before the longest one. -/
theorem Window.thirtyDays_start_le (window : Window) (reference : Timestamp) :
    Window.thirtyDays.start reference ≤ window.start reference :=
  reference.minutesBefore_le window.minutes_le_thirtyDays

/-! ### A run asks for windows of its context only -/

/-- Two stores answer alike every request that is made in a context. -/
def Context.SameWindows (context : Context) (first second : Store) : Prop :=
  ∀ (metric : String) (window : Window),
    first ⟨context.device, metric, window.start context.reference, context.reference⟩ =
      second ⟨context.device, metric, window.start context.reference, context.reference⟩

section Windows

variable {env : Environment} {other : Store}
  (h : ∀ context, env.context = some context → context.SameWindows other env.store)

include h

theorem reduce_sameWindows (function metric : String) (window : Window)
    (reduction : Statistics.Reduction) (numbers : List Decimal) :
    Call.reduce { env with store := other } function metric window reduction numbers =
      Call.reduce env function metric window reduction numbers := by
  rw [Call.reduce, Call.reduce]
  dsimp only
  cases hcontext : env.context with
  | none => rfl
  | some context =>
    have hanswer := h context hcontext metric window
    dsimp only
    rw [Eval.request, Eval.request, hanswer]

theorem call_sameWindows (expression : Eval Decimal) (name : String) (position : Nat) :
    Call.call { env with store := other } expression name position =
      Call.call env expression name position := by
  have hstatistical : Call.statistical { env with store := other } expression =
      Call.statistical env expression := by
    funext function kinds reduction
    rw [Call.statistical, Call.statistical]
    simp only [reduce_sameWindows h]
  have hinvoke : Call.invoke { env with store := other } expression =
      Call.invoke env expression := by
    funext entry position
    rw [Call.invoke, Call.invoke]
    simp only [hstatistical]
  rw [Call.call, Call.call, hinvoke]

theorem factor_sameWindows (levels : Nat) :
    Grammar.factor { env with store := other } levels = Grammar.factor env levels := by
  induction levels with
  | zero => rfl
  | succ levels ih =>
    have hcomparison : ∀ factor, Grammar.comparison { env with store := other } factor =
        Grammar.comparison env factor := fun _ => rfl
    have hvariable : Grammar.variableValue { env with store := other } =
        Grammar.variableValue env := rfl
    have hprimary : Grammar.primary { env with store := other } =
        Grammar.primary env := by
      funext factor
      rw [Grammar.primary, Grammar.primary]
      simp only [hcomparison, hvariable, call_sameWindows h]
    rw [Grammar.factor, Grammar.factor, ih, hprimary]

theorem expression_sameWindows :
    Grammar.expression { env with store := other } = Grammar.expression env := by
  rw [Grammar.expression, Grammar.expression, factor_sameWindows h]
  rfl

end Windows

namespace Engine

variable (engine : Engine) {context : Context} {first second : Store}
  (h : context.SameWindows first second)

include h

theorem evaluate_sameWindows (bindings : String → Option Decimal) (expression : String) :
    engine.evaluate first bindings (some context) expression =
      engine.evaluate second bindings (some context) expression := by
  let env := engine.environment second bindings (some context)
  have hsame : ∀ other, env.context = some other → other.SameWindows first env.store := by
    intro other hother
    obtain rfl : context = other := Option.some.inj hother
    exact h
  have hrun : engine.run { env with store := first } true expression =
      engine.run env true expression := by
    rw [run, run, expression_sameWindows hsame]
  rw [evaluate, evaluate]
  exact congrArg (fun ended : Except Failure (Decimal × ExpressionInfo) × Trace =>
    (ended.1.map (·.1), ended.2 ++ failureTrace expression (ended.1.map (·.1)))) hrun

theorem compute_sameWindows (readings : String → Option Decimal)
    (definitions : List SyntheticVariable) :
    engine.compute first context readings definitions =
      engine.compute second context readings definitions := by
  have hvalues : engine.values first context readings definitions =
      engine.values second context readings definitions := by
    induction definitions with
    | nil => rfl
    | cons v rest ih =>
      rw [values, values, ih, evaluate_sameWindows engine h]
  rw [compute, compute, hvalues]

end Engine

/-! ### Histories -/

namespace MemoryStore

/-- The samples of a metric that lie in the longest window of a context, in the order of
their arrival. -/
def lookback (context : Context) (metric : String) (operations : List Operation) :
    List Sample :=
  (arrivals ⟨context.device, metric⟩ operations).filter
    (between (Window.thirtyDays.start context.reference) context.reference)

/-- What arrived before the longest window does not reach any window. -/
theorem filter_lookback (context : Context) (metric : String) (operations : List Operation)
    (window : Window) :
    (lookback context metric operations).filter
        (between (window.start context.reference) context.reference) =
      (arrivals ⟨context.device, metric⟩ operations).filter
        (between (window.start context.reference) context.reference) := by
  rw [lookback, List.filter_filter]
  apply List.filter_congr
  intro sample _
  rw [Bool.and_eq_left_iff_imp]
  intro hwindow
  obtain ⟨hstart, hstop⟩ := of_decide_eq_true hwindow
  exact decide_eq_true
    ⟨Timestamp.le_trans (window.thirtyDays_start_le context.reference) hstart, hstop⟩

/-- The windows of a context are the windows of its lookback. -/
theorem fetch_replay_eq_lookback (context : Context) (metric : String)
    (operations : List Operation) (window : Window) :
    (replay operations).fetch
        ⟨context.device, metric, window.start context.reference, context.reference⟩ =
      chronological ((lookback context metric operations).filter
        (between (window.start context.reference) context.reference)) := by
  rw [filter_lookback, ← filter_chronological, ← stretch_eq_filter (ordered_chronological _),
    ← samples_replay]
  rfl

theorem sameWindows_replay {context : Context} {operations others : List Operation}
    (h : ∀ metric, lookback context metric operations = lookback context metric others) :
    context.SameWindows (replay operations).toStore (replay others).toStore := by
  intro metric window
  rw [toStore, toStore, fetch_replay_eq_lookback, fetch_replay_eq_lookback, h metric]

end MemoryStore

namespace Engine

open MemoryStore

/-- Two histories that have brought a device the same samples of each metric, in the same
order, between the beginning of the longest window and the reference time, have the same
evaluations and the same synthetic variables for that device at that time.  Other devices,
later samples and older ones make no difference, not even to what is reported. -/
theorem lookback_determines (engine : Engine) (context : Context)
    (operations others : List MemoryStore.Operation)
    (hsame : ∀ metric, lookback context metric operations = lookback context metric others) :
    (∀ bindings expression,
      engine.evaluate (replay operations).toStore bindings (some context) expression =
        engine.evaluate (replay others).toStore bindings (some context) expression) ∧
    ∀ readings definitions,
      engine.compute (replay operations).toStore context readings definitions =
        engine.compute (replay others).toStore context readings definitions := by
  have hwindows := sameWindows_replay hsame
  exact ⟨engine.evaluate_sameWindows hwindows, engine.compute_sameWindows hwindows⟩

/-- One minute after the first point of the calendar every window begins at that point.  The
sample there counts, whatever has come later and from elsewhere. -/
theorem lookback_determines_at_first :
    let context : Context := ⟨"pump", ⟨Timestamp.first.second + 60, 0⟩⟩
    let operations : List MemoryStore.Operation :=
      [.record ⟨"pump", "load"⟩ ⟨Timestamp.first, ⟨false, 3, 0⟩⟩]
    let others : List MemoryStore.Operation :=
      [.record ⟨"fan", "load"⟩ ⟨Timestamp.first, ⟨false, 8, 0⟩⟩,
        .recordAll ⟨"pump", "load"⟩
          [⟨Timestamp.last, ⟨false, 9, 0⟩⟩, ⟨Timestamp.first, ⟨false, 3, 0⟩⟩]]
    Window.thirtyDays.start context.reference = Timestamp.first ∧
      (∀ metric, lookback context metric operations = lookback context metric others) ∧
      ∀ (engine : Engine) bindings expression,
        engine.evaluate (replay operations).toStore bindings (some context) expression =
          engine.evaluate (replay others).toStore bindings (some context) expression := by
  intro context operations others
  have hsame : ∀ metric,
      lookback context metric operations = lookback context metric others := by
    intro metric
    by_cases hmetric : metric = "load"
    · subst hmetric
      decide +kernel
    · have hkeys : SeriesKey.mk "pump" "load" ≠ ⟨"pump", metric⟩ := by
        rintro ⟨⟩
        exact hmetric rfl
      have hforeign : SeriesKey.mk "fan" "load" ≠ ⟨"pump", metric⟩ := by
        intro hkey
        have hdevice : "fan" = "pump" := congrArg SeriesKey.device hkey
        exact absurd hdevice (by decide)
      simp [lookback, arrivals, sinceClear, Operation.isClear, Operation.arrivals, operations,
        others, context, hkeys, hforeign]
  exact ⟨by decide +kernel, hsame, fun engine =>
    (lookback_determines engine context operations others hsame).1⟩

end Engine

end DerivedTelemetry
