import DerivedTelemetry.Function.Builtin

/-!
# Faults of one moment

The built-in functions fail with faults of arithmetic, which belong to the values they are
given, provided that they are given as many arguments as they accept.  Everything that could
be wrong with a call as it is written has been found before the function is asked.

For a function of numbers and for a reduction this is a property of the result.  For a lazy
function it is a property of the strategy, which goes on from what it has consumed.
-/

namespace DerivedTelemetry

/-- If there is a fault, it belongs to the numbers of one moment. -/
def Momentary {α : Type} (result : Except Fault α) : Prop :=
  ∀ fault, result = .error fault → fault.kind = .arithmetic

/-- Nobody has to change what was written down because of the numbers of one moment. -/
theorem Fault.isConfiguration_of_arithmetic {fault : Fault} (h : fault.kind = .arithmetic) :
    fault.isConfiguration = false := by
  cases fault with
  | arithmetic cause => rfl
  | _ => cases h

namespace Momentary

variable {α β : Type}

theorem ok (value : α) : Momentary (.ok value) := nofun

theorem error {fault : Fault} (h : fault.kind = .arithmetic) :
    Momentary (.error fault : Except Fault α) := by
  intro other hother
  cases hother
  exact h

theorem bind {result : Except Fault α} {next : α → Except Fault β} (h : Momentary result)
    (hnext : ∀ value, Momentary (next value)) : Momentary (result >>= next) := by
  cases result with
  | error fault => exact error (h fault rfl)
  | ok value => exact hnext value

theorem map {result : Except Fault α} (f : α → β) (h : Momentary result) :
    Momentary (result.map f) := by
  cases result with
  | error fault => exact error (h fault rfl)
  | ok value => exact ok (f value)

theorem foldlM {step : β → α → Except Fault β} (h : ∀ total value, Momentary (step total value))
    (values : List α) (total : β) : Momentary (values.foldlM step total) := by
  induction values generalizing total with
  | nil => exact ok total
  | cons first rest ih =>
    rw [List.foldlM_cons]
    exact (h total first).bind ih

theorem orFault (result : Option Decimal) (cause : ArithmeticFault) :
    Momentary (Checked.orFault result cause) := by
  cases result with
  | none => exact error rfl
  | some value => exact ok value

end Momentary

/-! ### Arithmetic -/

namespace Checked

theorem momentary_add (a b : Decimal) : Momentary (add a b) := .orFault _ _

theorem momentary_sub (a b : Decimal) : Momentary (sub a b) := .orFault _ _

theorem momentary_mul (a b : Decimal) : Momentary (mul a b) := .orFault _ _

theorem momentary_div (a b : Decimal) (precision : Nat) : Momentary (div a b precision) := by
  rw [div]
  split
  · exact .error rfl
  · exact .map _ (.orFault _ _)

theorem momentary_sum (numbers : List Decimal) : Momentary (sum numbers) :=
  .foldlM momentary_add numbers Decimal.zero

theorem momentary_ofDouble (function : String) (x : Float) : Momentary (ofDouble function x) := by
  rw [ofDouble]
  split
  · exact .error rfl
  · exact .orFault _ _

theorem momentary_throughDouble (function : String) (f : Float → Float) (x : Decimal) :
    Momentary (throughDouble function f x) := momentary_ofDouble function _

theorem momentary_sqrt (function : String) (x : Decimal) : Momentary (sqrt function x) := by
  rw [sqrt]
  split
  · exact .error rfl
  · exact momentary_throughDouble function Float.sqrt x

end Checked

/-! ### Functions of numbers -/

namespace Math

theorem momentary_unary {name : String} {f : Decimal → Except Fault Decimal}
    (h : ∀ x, Momentary (f x)) {arguments : List Decimal} (hlength : arguments.length = 1) :
    Momentary (unary name f arguments) := by
  obtain ⟨x, rfl⟩ := List.length_eq_one_iff.mp hlength
  exact h x

theorem momentary_binary {name : String} {f : Decimal → Decimal → Except Fault Decimal}
    (h : ∀ x y, Momentary (f x y)) : ∀ {arguments : List Decimal}, arguments.length = 2 →
      Momentary (binary name f arguments)
  | [x, y], _ => h x y

theorem momentary_logarithm (name : String) (f : Float → Float) {arguments : List Decimal}
    (hlength : arguments.length = 1) : Momentary (logarithm name f arguments) := by
  apply momentary_unary _ hlength
  intro x
  split
  · exact .error rfl
  · exact Checked.momentary_throughDouble name f x

theorem momentary_inverseAngle (name : String) (f : Float → Float) {arguments : List Decimal}
    (hlength : arguments.length = 1) : Momentary (inverseAngle name f arguments) := by
  apply momentary_unary _ hlength
  intro x
  split
  · exact .error rfl
  · exact Checked.momentary_throughDouble name f x

theorem momentary_powerLoop (result factor : Decimal) (exponent : Nat) :
    Momentary (powerLoop result factor exponent) := by
  induction exponent using Nat.strongRecOn generalizing result factor with
  | ind exponent ih =>
    rw [powerLoop]
    split
    · exact .ok result
    · rename_i hpositive
      have hnext : ∀ value, Momentary (if exponent / 2 = 0 then pure value else
          powerStep factor factor >>= fun square => powerLoop value square (exponent / 2)) := by
        intro value
        split
        · exact .ok value
        · apply Momentary.bind (.orFault _ _)
          intro square
          exact ih (exponent / 2) (Nat.div_lt_self (Nat.pos_of_ne_zero hpositive) (by decide)) _ _
      dsimp only
      split
      · exact Momentary.bind (.orFault _ _) hnext
      · exact hnext result

theorem momentary_power (base exponent : Decimal) : Momentary (power base exponent) := by
  rw [power]
  split
  · rw [wholePower]
    split
    · exact .error rfl
    · apply (momentary_powerLoop _ _ _).bind
      intro value
      split
      · exact .orFault _ _
      · exact .ok value
  · split
    · exact .error rfl
    · exact Checked.momentary_ofDouble "pow" _

theorem momentary_min {arguments : List Decimal} (hlength : 1 ≤ arguments.length) :
    Momentary (min arguments) := by
  cases arguments with
  | nil => exact absurd hlength (Nat.not_succ_le_zero 0)
  | cons x rest => exact .ok _

theorem momentary_max {arguments : List Decimal} (hlength : 1 ≤ arguments.length) :
    Momentary (max arguments) := by
  cases arguments with
  | nil => exact absurd hlength (Nat.not_succ_le_zero 0)
  | cons x rest => exact .ok _

end Math

/-! ### Reductions -/

namespace Statistics

variable (series : Series) (function : String)

theorem momentary_ends : Momentary (series.ends function) := by
  rw [Series.ends]
  split
  · exact .ok _
  · exact .error rfl

theorem momentary_mean : Momentary (series.mean function) := by
  rw [Series.mean]
  apply (momentary_ends series function).bind
  intro ends
  apply (Checked.momentary_sum _).bind
  intro total
  exact Checked.momentary_div _ _ _

theorem momentary_addSquare (mean total value : Decimal) :
    Momentary (addSquare mean total value) := by
  rw [addSquare]
  apply (Checked.momentary_sub _ _).bind
  intro deviation
  apply (Checked.momentary_mul _ _).bind
  intro square
  exact Checked.momentary_add _ _

theorem momentary_deviation (numbers : List Decimal) : Momentary (deviation series numbers) := by
  rw [deviation]
  apply (momentary_mean series "stddev").bind
  intro mean
  split
  · exact .ok _
  · apply (Momentary.foldlM (momentary_addSquare mean) _ _).bind
    intro squares
    apply (Checked.momentary_div _ _ _).bind
    intro variance
    apply (Checked.momentary_sqrt _ _).bind
    intro root
    exact .ok _

theorem momentary_median (numbers : List Decimal) : Momentary (median series numbers) := by
  rw [median]
  apply (momentary_ends series "median").bind
  intro ends
  dsimp only
  split
  · exact .ok _
  · apply (Checked.momentary_add _ _).bind
    intro pair
    exact Checked.momentary_div _ _ _

theorem momentary_extremeValue (which : Extremum) (numbers : List Decimal) :
    Momentary (extremeValue which function series numbers) := by
  rw [extremeValue]
  split
  · exact .ok _
  · exact .error rfl

theorem momentary_rate (numbers : List Decimal) : Momentary (rate series numbers) := by
  rw [rate]
  apply (momentary_ends series "rate").bind
  intro ends
  apply (Checked.momentary_sub _ _).bind
  intro change
  apply (Checked.momentary_mul _ _).bind
  intro total
  exact Checked.momentary_div _ _ _

theorem momentary_percentChange (numbers : List Decimal) :
    Momentary (percentChange series numbers) := by
  rw [percentChange]
  apply (momentary_ends series "percentChange").bind
  rintro ⟨first, last⟩
  dsimp only
  split
  · exact .error rfl
  · apply (Checked.momentary_sub _ _).bind
    intro change
    apply (Checked.momentary_mul _ _).bind
    intro product
    exact Checked.momentary_div _ _ _

theorem momentary_rankPosition (rank count : Decimal) : Momentary (rankPosition rank count) := by
  rw [rankPosition]
  apply (Checked.momentary_mul _ _).bind
  intro product
  split
  · exact .ok _
  · exact .error rfl

theorem momentary_percentile {numbers : List Decimal} (hlength : numbers.length = 1) :
    Momentary (percentile series numbers) := by
  obtain ⟨rank, rfl⟩ := List.length_eq_one_iff.mp hlength
  rw [percentile]
  split
  · exact .error rfl
  · apply (momentary_ends series "percentile").bind
    intro ends
    apply (momentary_rankPosition _ _).bind
    intro position
    exact .ok _

end Statistics

end DerivedTelemetry
