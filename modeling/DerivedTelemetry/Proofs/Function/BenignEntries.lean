import DerivedTelemetry.Proofs.Function.MomentaryFaults
import DerivedTelemetry.Proofs.Registrations

/-!
# Benign functions

A function is benign if a call with an accepted number of arguments can only fail because
of the values of the moment.  Custom functions need not be: they may answer any fault.  All
built-in functions are.

The argument count of a call is checked before its function is asked, which is why a
strategy only has to behave for counts that its function accepts.
-/

namespace DerivedTelemetry

/-- From where it stands among the `total` arguments of its call, a strategy gives up only
with faults of one moment. -/
def Strategy.Benign (total : Nat) : Strategy → (consumed : Nat) → Prop
  | .finish _, _ => True
  | .fail fault, _ => fault.kind = .arithmetic
  | .ask next, consumed => (next (total - consumed)).Benign total consumed
  | .take next refused, consumed =>
    if consumed < total then ∀ value, (next value).Benign total (consumed + 1)
    else (refused (pastEnd total)).Benign total consumed
  | .skip next refused, consumed =>
    if consumed < total then next.Benign total (consumed + 1)
    else (refused (pastEnd total)).Benign total consumed

/-- With an accepted number of arguments there are only faults of one moment. -/
def Implementation.Benign : Implementation → Prop
  | .numeric arity function => ∀ arguments : List Decimal,
    arity.accepts arguments.length = true → Momentary (function arguments)
  | .lazy arity strategy => ∀ total, arity.accepts total = true → strategy.Benign total 0
  | .statistical signature reduction => ∀ (series : Statistics.Series) (numbers : List Decimal),
    numbers.length = signature.count .number → Momentary (reduction series numbers)

/-- Every function that can be called is benign. -/
def Registry.Benign (registry : Registry) : Prop :=
  ∀ entry ∈ registry.entries, entry.implementation.Benign

namespace Strategy

theorem benign_takeNext {total consumed : Nat} {next : Decimal → Strategy}
    (hconsumed : consumed < total) (h : ∀ value, (next value).Benign total (consumed + 1)) :
    (takeNext next).Benign total consumed := by
  rw [takeNext, Benign, if_pos hconsumed]
  exact h

theorem benign_skipNext {total consumed : Nat} {next : Strategy} (hconsumed : consumed < total)
    (h : next.Benign total (consumed + 1)) : (skipNext next).Benign total consumed := by
  rw [skipNext, Benign, if_pos hconsumed]
  exact h

theorem benign_skipMany {total consumed count : Nat} (value : Decimal)
    (hcount : consumed + count = total) :
    (skipMany (.finish value) count).Benign total consumed := by
  induction count generalizing consumed with
  | zero => exact trivial
  | succ count ih => exact benign_skipNext (by omega) (ih (by omega))

end Strategy

namespace Logic

theorem benign_ifThenElse : ifThenElse.Benign 3 0 := by
  rw [ifThenElse, Strategy.Benign, if_pos rfl]
  apply Strategy.benign_takeNext (by decide)
  intro condition
  split
  · apply Strategy.benign_takeNext (by decide)
    intro value
    exact Strategy.benign_skipNext (by decide) trivial
  · apply Strategy.benign_skipNext (by decide)
    exact Strategy.benign_takeNext (by decide) fun _ => trivial

theorem benign_whileTruth (wanted : Bool) {total consumed count : Nat}
    (hcount : consumed + count = total) : (whileTruth wanted count).Benign total consumed := by
  induction count generalizing consumed with
  | zero => exact trivial
  | succ count ih =>
    apply Strategy.benign_takeNext (by omega)
    intro value
    split
    · exact ih (by omega)
    · exact Strategy.benign_skipMany _ (by omega)

theorem benign_variadic (name : String) (wanted : Bool) {total : Nat} (htotal : 1 ≤ total) :
    (variadic name wanted).Benign total 0 := by
  rw [variadic, Strategy.Benign, Nat.sub_zero, if_neg (by omega)]
  exact benign_whileTruth wanted (Nat.zero_add total)

end Logic

/-! ### The built-in functions -/

namespace Builtin

theorem eq_of_accepts {count expected : Nat} (h : (Arity.exact expected).accepts count = true) :
    count = expected := beq_iff_eq.mp h

theorem le_of_accepts {count least : Nat} (h : (Arity.atLeast least).accepts count = true) :
    least ≤ count := of_decide_eq_true h

theorem benign_unary (name : String) {f : Decimal → Except Fault Decimal}
    (h : ∀ x, Momentary (f x)) : Implementation.Benign (.numeric (.exact 1) (Math.unary name f)) :=
  fun _ haccepts => Math.momentary_unary h (eq_of_accepts haccepts)

theorem benign_double (name : String) (f : Float → Float) :
    Implementation.Benign (.numeric (.exact 1) (Math.unary name (Checked.throughDouble name f))) :=
  benign_unary name (Checked.momentary_throughDouble name f)

theorem benign_mathFunctions : ∀ entry ∈ mathFunctions, entry.implementation.Benign := by
  have hwhole : ∀ (name : String) (f : Decimal → Decimal),
      Implementation.Benign (.numeric (.exact 1) (Math.unary name fun x => .ok (f x))) :=
    fun name f => benign_unary name fun x => .ok (f x)
  have hlogarithm : ∀ (name : String) (f : Float → Float),
      Implementation.Benign (.numeric (.exact 1) (Math.logarithm name f)) :=
    fun name f _ haccepts => Math.momentary_logarithm name f (eq_of_accepts haccepts)
  have hangle : ∀ (name : String) (f : Float → Float),
      Implementation.Benign (.numeric (.exact 1) (Math.inverseAngle name f)) :=
    fun name f _ haccepts => Math.momentary_inverseAngle name f (eq_of_accepts haccepts)
  simp only [mathFunctions, List.forall_mem_cons, math]
  refine ⟨?sqrt, ?pow, ?abs, ?log, ?log10, ?exp, ?sin, ?cos, ?tan, ?asin, ?acos, ?atan, ?round,
    ?floor, ?ceil, ?min, ?max, nofun⟩
  case sqrt => exact benign_unary "sqrt" (Checked.momentary_sqrt "sqrt")
  case pow =>
    exact fun _ haccepts => Math.momentary_binary Math.momentary_power (eq_of_accepts haccepts)
  case abs => exact hwhole "abs" Decimal.abs
  case log => exact hlogarithm "log" Float.log
  case log10 => exact hlogarithm "log10" Float.log10
  case exp => exact benign_double "exp" Float.exp
  case sin => exact benign_double "sin" Float.sin
  case cos => exact benign_double "cos" Float.cos
  case tan => exact benign_double "tan" Float.tan
  case asin => exact hangle "asin" Float.asin
  case acos => exact hangle "acos" Float.acos
  case atan => exact benign_double "atan" Float.atan
  case round => exact hwhole "round" Decimal.round
  case floor => exact hwhole "floor" Decimal.floor
  case ceil => exact hwhole "ceil" Decimal.ceil
  case min => exact fun _ haccepts => Math.momentary_min (le_of_accepts haccepts)
  case max => exact fun _ haccepts => Math.momentary_max (le_of_accepts haccepts)

theorem benign_logicFunctions : ∀ entry ∈ logicFunctions, entry.implementation.Benign := by
  simp only [logicFunctions, List.forall_mem_cons, logic]
  refine ⟨?choice, ?conjunction, ?disjunction, ?negation, nofun⟩
  case choice =>
    intro total haccepts
    rw [eq_of_accepts haccepts]
    exact Logic.benign_ifThenElse
  case conjunction =>
    exact fun _ haccepts => Logic.benign_variadic "and" true (le_of_accepts haccepts)
  case disjunction =>
    exact fun _ haccepts => Logic.benign_variadic "or" false (le_of_accepts haccepts)
  case negation => exact benign_unary "not" fun x => .ok _

theorem benign_statisticalFunctions :
    ∀ entry ∈ statisticalFunctions, entry.implementation.Benign := by
  simp only [statisticalFunctions, List.forall_mem_cons, statistical]
  refine ⟨?avg, ?sum, ?count, ?stddev, ?median, ?minTime, ?maxTime, ?rate, ?movingAvg,
    ?percentChange, ?percentile, nofun⟩
  case avg => exact fun series _ _ => Statistics.momentary_mean series "avg"
  case sum => exact fun series _ _ => Checked.momentary_sum series.values
  case count => exact fun series _ _ => .ok series.count
  case stddev => exact fun series numbers _ => Statistics.momentary_deviation series numbers
  case median => exact fun series numbers _ => Statistics.momentary_median series numbers
  case minTime =>
    exact fun series numbers _ =>
      Statistics.momentary_extremeValue series "minTime" .least numbers
  case maxTime =>
    exact fun series numbers _ =>
      Statistics.momentary_extremeValue series "maxTime" .greatest numbers
  case rate => exact fun series numbers _ => Statistics.momentary_rate series numbers
  case movingAvg => exact fun series _ _ => Statistics.momentary_mean series "movingAvg"
  case percentChange =>
    exact fun series numbers _ => Statistics.momentary_percentChange series numbers
  case percentile =>
    exact fun series _ hlength => Statistics.momentary_percentile series hlength

end Builtin

/-- What holds of every built-in function holds throughout their registry. -/
theorem Builtin.forall_registry {P : Entry → Prop} (hmath : ∀ entry ∈ mathFunctions, P entry)
    (hlogic : ∀ entry ∈ logicFunctions, P entry)
    (hstatistical : ∀ entry ∈ statisticalFunctions, P entry) :
    ∀ entry ∈ registry.entries, P entry := by
  intro entry hentry
  rcases List.mem_append.mp (Registry.mem_of_mem_registerAll hentry) with hfirst | hlast
  · rcases List.mem_append.mp hfirst with hmem | hmem
    · exact hmath entry hmem
    · exact hlogic entry hmem
  · exact hstatistical entry hlast

/-- The built-in functions never blame the text of an expression for what it is evaluated
with. -/
theorem Builtin.benign_registry : Builtin.registry.Benign :=
  forall_registry benign_mathFunctions benign_logicFunctions benign_statisticalFunctions

theorem Registry.Benign.of_lookup? {registry : Registry} (h : registry.Benign) {name : String}
    {entry : Entry} (hentry : registry.lookup? name = some entry) :
    entry.implementation.Benign :=
  h entry (List.mem_of_find?_eq_some hentry)

end DerivedTelemetry
