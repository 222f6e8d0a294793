import Mathlib.Control.Monad.Basic
import DerivedTelemetry.Proofs.Function.BenignEntries
import DerivedTelemetry.Proofs.Function.BoundedFunctions
import DerivedTelemetry.Proofs.Validation

/-!
# How far the scale can grow

Readings, samples and literals are representable, and still a result need not be.  Each
division ends with a rounding to significant digits, which pads a short quotient with zeros
behind the point, wherever the point is.  So a result may have a scale beyond the greatest
one, by less than the precision for each division in the text and no more than that.  Its
mantissa always fits.
-/

namespace DerivedTelemetry

open Decimal (Within maxScale capacity)

/-- The statistical functions that divide. -/
def Builtin.dividing : List String :=
  ["avg", "stddev", "median", "rate", "movingAvg", "percentChange"]

/-- The sign of a division, and the name of a function that divides in any case. -/
def Symbol.divides : Symbol → Bool
  | .slash => true
  | .name text => Builtin.dividing.any fun other => nameKey other == nameKey text
  | _ => false

/-- The number of divisions that an expression names. -/
def Engine.divisions (engine : Engine) (expression : String) : Nat :=
  match engine.tokens expression with
  | .ok tokens => (tokens.map (·.symbol)).countP Symbol.divides
  | .error _ => 0

/-- Each answer consists of representable samples, and there are not so many of them that
their number is not representable. -/
def Store.Representable (store : Store) : Prop :=
  ∀ request samples, store request = .ok samples →
    samples.length < capacity ∧ ∀ sample ∈ samples, sample.value.WellFormed

/-! ### The built-in functions -/

/-- What a function does to bounds, if its name stands for so many divisions. -/
def Implementation.Bounded (divisions : Nat) : Implementation → Prop
  | .numeric _ function => Math.Bounded function
  | .lazy _ strategy => ∀ P : Decimal → Prop, (∀ truth, P (Decimal.ofBool truth)) →
    strategy.Closed P
  | .statistical _ reduction => Statistics.Bounded divisions reduction

/-- The divisions that the name of a function stands for. -/
def Entry.divisions (entry : Entry) : Nat := (Symbol.divides (.name entry.name)).toNat

namespace Builtin

theorem bounded_mathFunctions :
    ∀ entry ∈ mathFunctions, entry.implementation.Bounded entry.divisions := by
  have hwhole : ∀ (name : String) {f : Decimal → Decimal},
      (∀ {extra x}, x.Within extra → (f x).Within extra) →
      Math.Bounded (Math.unary name fun x => .ok (f x)) :=
    fun name _ hf => Math.bounded_unary name fun _ _ hx => .ok (hf hx)
  simp only [mathFunctions, List.forall_mem_cons, math]
  refine ⟨?sqrt, ?pow, ?abs, ?log, ?log10, ?exp, ?sin, ?cos, ?tan, ?asin, ?acos, ?atan, ?round,
    ?floor, ?ceil, ?min, ?max, List.forall_mem_nil _⟩
  case sqrt => exact Math.bounded_unary_of_wellFormed "sqrt" (Checked.sqrt_wellFormed "sqrt")
  case pow => exact Math.bounded_pow
  case abs => exact hwhole "abs" Within.abs
  case log => exact Math.bounded_logarithm "log" Float.log
  case log10 => exact Math.bounded_logarithm "log10" Float.log10
  case exp => exact Math.bounded_double "exp" Float.exp
  case sin => exact Math.bounded_double "sin" Float.sin
  case cos => exact Math.bounded_double "cos" Float.cos
  case tan => exact Math.bounded_double "tan" Float.tan
  case asin => exact Math.bounded_inverseAngle "asin" Float.asin
  case acos => exact Math.bounded_inverseAngle "acos" Float.acos
  case atan => exact Math.bounded_double "atan" Float.atan
  case round => exact hwhole "round" Within.round
  case floor => exact hwhole "floor" Within.floor
  case ceil => exact hwhole "ceil" Within.ceil
  case min => exact Math.bounded_min
  case max => exact Math.bounded_max

theorem bounded_logicFunctions :
    ∀ entry ∈ logicFunctions, entry.implementation.Bounded entry.divisions := by
  simp only [logicFunctions, List.forall_mem_cons, logic]
  refine ⟨?choice, ?conjunction, ?disjunction, ?negation, List.forall_mem_nil _⟩
  case choice => exact fun _ _ => Logic.closed_ifThenElse
  case conjunction => exact fun _ htruth => Logic.closed_variadic htruth "and" true
  case disjunction => exact fun _ htruth => Logic.closed_variadic htruth "or" false
  case negation =>
    exact Math.bounded_unary_of_wellFormed "not" fun _ => .ok (Decimal.wellFormed_ofBool _)

theorem bounded_statisticalFunctions :
    ∀ entry ∈ statisticalFunctions, entry.implementation.Bounded entry.divisions := by
  have hmean : ∀ function,
      Statistics.Bounded 1 fun series _ => series.mean function :=
    fun function _ _ h => Statistics.mean_within h function
  have hnone : ∀ {divisions reduction}, Statistics.Bounded 0 reduction →
      Statistics.Bounded divisions reduction := fun h => h.mono (Nat.zero_le _)
  simp only [statisticalFunctions, List.forall_mem_cons, statistical]
  refine ⟨?avg, ?sum, ?count, ?stddev, ?median, ?minTime, ?maxTime, ?rate, ?movingAvg,
    ?percentChange, ?percentile, List.forall_mem_nil _⟩
  case avg => exact (hmean "avg").mono (by decide +kernel)
  case sum => exact hnone Statistics.bounded_sum
  case count => exact hnone Statistics.bounded_count
  case stddev => exact Statistics.bounded_deviation.mono (by decide +kernel)
  case median => exact Statistics.bounded_median.mono (by decide +kernel)
  case minTime => exact hnone (Statistics.bounded_extremeValue .least "minTime")
  case maxTime => exact hnone (Statistics.bounded_extremeValue .greatest "maxTime")
  case rate => exact Statistics.bounded_rate.mono (by decide +kernel)
  case movingAvg => exact (hmean "movingAvg").mono (by decide +kernel)
  case percentChange => exact Statistics.bounded_percentChange.mono (by decide +kernel)
  case percentile => exact hnone Statistics.bounded_percentile

end Builtin

/-! ### Every value of a run -/

/-- Values by the divisions in the text that they were read from. -/
def Grading.ofScale (precision : Nat) : Grading where
  weight symbol := symbol.divides.toNat
  holds divisions value := value.Within (divisions * (precision - 1))
  literal := Decimal.WellFormed

theorem Grading.weigh_ofScale (precision : Nat) (symbols : List Symbol) :
    (Grading.ofScale precision).weigh symbols = symbols.countP Symbol.divides := by
  induction symbols with
  | nil => rfl
  | cons symbol symbols ih =>
    rw [Grading.weigh, ih, List.countP_cons, Nat.add_comm]
    change _ + symbol.divides.toNat = _
    cases symbol.divides <;> rfl

section Sound

variable {env : Environment}

/-- A function whose name stands for its divisions keeps the grading. -/
theorem Implementation.Bounded.keeps (hprecision : env.precision ≤ maxScale)
    (hstore : Store.Representable env.store) {divisions : Nat} {implementation : Implementation}
    (h : implementation.Bounded divisions) :
    implementation.Keeps (Grading.ofScale env.precision) env divisions := by
  cases implementation with
  | numeric arity function =>
    intro grade arguments result harguments hresult
    exact (h _ arguments harguments result hresult).mono
      (Nat.mul_le_mul_right _ (Nat.le_add_left grade divisions))
  | lazy arity strategy =>
    intro grade
    exact h _ fun truth => (Decimal.wellFormed_ofBool truth).within _
  | statistical signature reduction =>
    intro grade numbers request samples window result _ hanswer hresult
    obtain ⟨hlength, hsamples⟩ := hstore request samples hanswer
    have hseries : Statistics.Series.Representable ⟨samples, window, env.precision⟩ :=
      ⟨List.forall_mem_map.mpr hsamples, hlength, hprecision⟩
    exact (h _ numbers hseries result hresult).mono
      (Nat.mul_le_mul_right _ (Nat.le_add_right divisions grade))

theorem Builtin.keeps_of_lookup? (hregistry : env.registry = Builtin.registry)
    (hprecision : env.precision ≤ maxScale) (hstore : Store.Representable env.store)
    {name : String} {entry : Entry} (hentry : env.registry.lookup? name = some entry) :
    entry.implementation.Keeps (Grading.ofScale env.precision) env
      (Symbol.divides (.name name)).toNat := by
  rw [hregistry, Registry.lookup?] at hentry
  have hbounded : entry.implementation.Bounded entry.divisions :=
    forall_registry bounded_mathFunctions bounded_logicFunctions bounded_statisticalFunctions
      entry (List.mem_of_find?_eq_some hentry)
  -- Look-up does not see the case of letters, and neither does the count of divisions.
  have hfound := List.find?_some hentry
  have hkey : nameKey entry.name = nameKey name := beq_iff_eq.mp hfound
  have hdivisions : entry.divisions = (Symbol.divides (.name name)).toNat := by
    rw [Entry.divisions, Symbol.divides, Symbol.divides, hkey]
  rw [← hdivisions]
  exact hbounded.keeps hprecision hstore

theorem Grading.sound_ofScale (hregistry : env.registry = Builtin.registry)
    (hprecision : env.precision ≤ maxScale) (hstore : Store.Representable env.store)
    (hbindings : ∀ name value, env.bindings name = some value → value.WellFormed) :
    (Grading.ofScale env.precision).Sound env where
  mono hle h := h.mono (Nat.mul_le_mul_right _ hle)
  ofBool truth := (Decimal.wellFormed_ofBool truth).within _
  literal _ h := h.within _
  bound name value h := (hbindings name value h).within _
  neg h := h.neg
  product {symbol operator left right a b result} hoperator ha hb hresult := by
    cases symbol with
    | star =>
      cases hoperator
      exact (Checked.mul_wellFormed a b result hresult).within _
    | slash =>
      cases hoperator
      have hone : left + 1 ≤ left + (Symbol.slash.divides.toNat + right) :=
        Nat.add_le_add_left (Nat.le_add_right 1 right) left
      have hmore := Nat.mul_le_mul_right (env.precision - 1) hone
      rw [Nat.succ_mul] at hmore
      exact (Checked.div_within ha b hprecision result hresult).mono hmore
    | _ => cases hoperator
  sum {symbol operator left right a b result} hoperator ha hb hresult := by
    have hleft : a.Within ((left + (symbol.divides.toNat + right)) * (env.precision - 1)) :=
      ha.mono (Nat.mul_le_mul_right _ (Nat.le_add_right left _))
    have hright : b.Within ((left + (symbol.divides.toNat + right)) * (env.precision - 1)) :=
      hb.mono (Nat.mul_le_mul_right _ (by omega))
    cases symbol with
    | plus =>
      cases hoperator
      exact Checked.add_within hleft hright result hresult
    | minus =>
      cases hoperator
      exact Checked.sub_within hleft hright result hresult
    | _ => cases hoperator
  function _ _ hentry := Builtin.keeps_of_lookup? hregistry hprecision hstore hentry

end Sound

/-! ### Evaluations -/

namespace Settings

theorem precision_le_of_fault?_eq_none {settings : Settings} (h : settings.fault? = none) :
    settings.precision ≤ maxScale := by
  rw [fault?] at h
  split at h
  · cases h
  · rename_i hrange
    exact Nat.le_of_not_lt fun hlimit => hrange (.inr hlimit)

end Settings

namespace Engine

/-- With valid settings, and variables and samples that are all representable, the mantissa
of a result fits, and its scale exceeds the greatest one by less than the precision for each
division in the expression.  A result of no division is representable, and so is any result
at a precision of one digit. -/
theorem evaluate_within (settings : Settings) (expression : String) (store : Store)
    (bindings : String → Option Decimal) (context : Option Context) (value : Decimal)
    (hsettings : settings.fault? = none) (hstore : Store.Representable store)
    (hbindings : ∀ name value, bindings name = some value → value.WellFormed)
    (hvalue : (Engine.evaluate ⟨settings, Builtin.registry⟩ store bindings context
      expression).1 = .ok value) :
    value.Within (Engine.divisions ⟨settings, Builtin.registry⟩ expression *
        (settings.precision - 1)) ∧
      (Engine.divisions ⟨settings, Builtin.registry⟩ expression = 0 ∨ settings.precision = 1 →
        value.WellFormed) := by
  let engine : Engine := ⟨settings, Builtin.registry⟩
  let env : Environment := engine.environment store bindings context
  have hprecision : env.precision ≤ maxScale := Settings.precision_le_of_fault?_eq_none hsettings
  have hsound : (Grading.ofScale env.precision).Sound env :=
    Grading.sound_ofScale rfl hprecision hstore hbindings
  have hwithin : value.Within (engine.divisions expression * (settings.precision - 1)) := by
    obtain ⟨given, hrun, rfl⟩ : ∃ given, (engine.run env true expression).1 = .ok given ∧
        given.1 = value := by
      change ((engine.run env true expression).1.map (·.1)) = .ok value at hvalue
      cases hrun : (engine.run env true expression).1 with
      | error failure =>
        rw [hrun] at hvalue
        cases hvalue
      | ok given =>
        rw [hrun] at hvalue
        cases hvalue
        exact ⟨given, rfl, rfl⟩
    obtain ⟨tokens, after, htokens, hexpression⟩ := expression_of_run hrun
    obtain ⟨-, -, htokenized⟩ := tokens_eq_ok.mp htokens
    have hliteral : (Grading.ofScale env.precision).Literal (tokens.map (·.symbol)) := by
      intro number hnumber
      obtain ⟨whole, fraction, hdigits⟩ := Lexer.exists_digits_of_tokens htokenized hnumber
      exact Decimal.wellFormed_of_ofDigits hdigits
    have hgraded := expression_graded hsound (s := start true tokens)
      (Lexer.terminated_tokens htokenized) hliteral hexpression
    rw [divisions, htokens]
    rw [Grading.weigh_ofScale] at hgraded
    exact hgraded
  refine ⟨hwithin, ?_⟩
  intro hnone
  have hextra : engine.divisions expression * (settings.precision - 1) = 0 := by
    rcases hnone with hdivisions | hone
    · rw [hdivisions, Nat.zero_mul]
    · rw [hone, Nat.sub_self, Nat.mul_zero]
  rw [hextra] at hwithin
  exact Decimal.within_zero_iff.mp hwithin

/-- The bound is reached by one division: the average of the least sample is padded by two
digits. -/
theorem evaluate_within_reached :
    let engine : Engine := ⟨⟨3, 64, 4096⟩, Builtin.registry⟩
    let store : Store := fun _ => .ok [⟨⟨0, 0⟩, ⟨false, 1, 28⟩⟩]
    let bindings : String → Option Decimal := fun name =>
      if name = "x" then some ⟨false, 10, 0⟩ else none
    let result : Decimal := ⟨false, 100, 30⟩
    (engine.evaluate store bindings (some ⟨"pump", ⟨60, 0⟩⟩)
        "if(x, avg(\"load\", \"1h\"), 0)").1 = .ok result ∧
      engine.divisions "if(x, avg(\"load\", \"1h\"), 0)" = 1 ∧ result.Within 2 ∧
      ¬ result.Within 1 := by
  intro engine store bindings result
  have hvalue : (engine.evaluate store bindings (some ⟨"pump", ⟨60, 0⟩⟩)
      "if(x, avg(\"load\", \"1h\"), 0)").1 = .ok result := by decide +kernel
  have hdivisions : engine.divisions "if(x, avg(\"load\", \"1h\"), 0)" = 1 := by decide +kernel
  have hstore : Store.Representable store := by
    rintro request samples ⟨⟩
    decide +kernel
  have hbindings : ∀ name value, bindings name = some value → value.WellFormed := by
    intro name value hname
    dsimp only [bindings] at hname
    split at hname
    · obtain rfl := Option.some.inj hname
      decide +kernel
    · cases hname
  have hwithin := (evaluate_within ⟨3, 64, 4096⟩ "if(x, avg(\"load\", \"1h\"), 0)" store bindings
    (some ⟨"pump", ⟨60, 0⟩⟩) result (by decide) hstore hbindings hvalue).1
  rw [hdivisions] at hwithin
  exact ⟨hvalue, hdivisions, hwithin, fun h => absurd h.scale_le (by decide)⟩

/-- The least positive literal over one, at a precision of two digits: nothing else enters the
calculation, and the padded quotient has one digit too many after the point. -/
theorem padded_quotient_not_wellFormed :
    let settings : Settings := ⟨2, 64, 4096⟩
    let result : Decimal := ⟨false, 10, 29⟩
    settings.fault? = none ∧ Store.Representable emptyStore ∧
      (Engine.evaluate ⟨settings, Builtin.registry⟩ emptyStore (fun _ => none) none
        "0.0000000000000000000000000001 / 1").1 = .ok result ∧ ¬ result.WellFormed := by
  refine ⟨by decide, ?_, by decide +kernel, by decide +kernel⟩
  rintro request samples ⟨⟩
  decide +kernel

end Engine

end DerivedTelemetry
