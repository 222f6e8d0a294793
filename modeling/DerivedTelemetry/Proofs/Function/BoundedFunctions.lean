import DerivedTelemetry.Function.Builtin
import DerivedTelemetry.Proofs.Decimal.Readers
import DerivedTelemetry.Proofs.Evaluation.Grading

/-!
# Bounds of functions

A function of numbers answers within the bounds that its arguments are within.  A lazy one
only hands arguments on or decides between true and false.  A reduction of representable
samples answers within the bounds of a single division, if it divides at all: what a
standard deviation divides first is multiplied afterwards, and a product is always fitted.
-/

namespace DerivedTelemetry

open Decimal (Within maxScale capacity)

/-- If there is an answer, it has the property. -/
def Answers {α : Type} (P : α → Prop) (result : Except Fault α) : Prop :=
  ∀ value, result = .ok value → P value

namespace Answers

variable {α β : Type} {P : α → Prop} {Q : β → Prop}

theorem ok {value : α} (h : P value) : Answers P (.ok value) := by
  intro other hother
  cases hother
  exact h

theorem error (fault : Fault) : Answers P (.error fault) := by
  intro value hvalue
  cases hvalue

/-- Of some results nothing needs to be known. -/
theorem any (result : Except Fault α) : Answers (fun _ => True) result := fun _ _ => trivial

theorem mono {R : α → Prop} {result : Except Fault α} (h : Answers P result)
    (hle : ∀ value, P value → R value) : Answers R result :=
  fun value hvalue => hle value (h value hvalue)

theorem bind {result : Except Fault α} {next : α → Except Fault β} (h : Answers P result)
    (hnext : ∀ value, P value → Answers Q (next value)) : Answers Q (result >>= next) := by
  cases result with
  | error fault => exact error fault
  | ok value => exact hnext value (h value rfl)

theorem map {result : Except Fault α} {f : α → β} (h : Answers P result)
    (hf : ∀ value, P value → Q (f value)) : Answers Q (result.map f) := by
  cases result with
  | error fault => exact error fault
  | ok value => exact ok (hf value (h value rfl))

theorem foldlM {step : β → α → Except Fault β} {values : List α} {total : β} (htotal : Q total)
    (h : ∀ total value, Q total → value ∈ values → Answers Q (step total value)) :
    Answers Q (values.foldlM step total) := by
  induction values generalizing total with
  | nil => exact ok htotal
  | cons first rest ih =>
    rw [List.foldlM_cons]
    refine (h total first htotal List.mem_cons_self).bind ?_
    intro next hnext
    exact ih hnext fun total value hvalue hmem =>
      h total value hvalue (List.mem_cons_of_mem first hmem)

theorem orFault {P : Decimal → Prop} {result : Option Decimal} (cause : ArithmeticFault)
    (h : ∀ value, result = some value → P value) : Answers P (Checked.orFault result cause) := by
  cases result with
  | none => exact error _
  | some value => exact ok (h value rfl)

end Answers

/-! ### Arithmetic -/

namespace Checked

variable {extra precision : Nat} {a b : Decimal}

theorem add_within (ha : a.Within extra) (hb : b.Within extra) :
    Answers (Within extra) (add a b) := .orFault _ fun _ => ha.add? hb

theorem sub_within (ha : a.Within extra) (hb : b.Within extra) :
    Answers (Within extra) (sub a b) := .orFault _ fun _ => ha.sub? hb

theorem mul_wellFormed (a b : Decimal) : Answers Decimal.WellFormed (mul a b) :=
  .orFault _ fun _ => Decimal.wellFormed_of_mul?

/-- A division adds less than one digit for each significant one. -/
theorem div_within (ha : a.Within extra) (b : Decimal) (hprecision : precision ≤ maxScale) :
    Answers (Within (extra + (precision - 1))) (div a b precision) := by
  rw [div]
  split
  · exact .error _
  · have hquotient : Answers (Within extra) (orFault (a.div? b) (.overflow .div a b)) :=
      .orFault _ fun _ => ha.div?
    exact hquotient.map fun quotient h => h.roundSignificant hprecision

theorem sum_within {numbers : List Decimal} (h : ∀ number ∈ numbers, number.Within extra) :
    Answers (Within extra) (sum numbers) :=
  .foldlM (Decimal.wellFormed_zero.within extra) fun _ number htotal hmem =>
    add_within htotal (h number hmem)

theorem throughDouble_wellFormed (function : String) (f : Float → Float) (x : Decimal) :
    Answers Decimal.WellFormed (throughDouble function f x) :=
  fun _ => wellFormed_of_ofDouble

theorem sqrt_wellFormed (function : String) (x : Decimal) :
    Answers Decimal.WellFormed (sqrt function x) := by
  rw [sqrt]
  split
  · exact .error _
  · exact throughDouble_wellFormed function Float.sqrt x

end Checked

/-! ### Functions of numbers -/

namespace Math

/-- The result is within all bounds that the arguments are within. -/
def Bounded (function : NumericFunction) : Prop :=
  ∀ extra arguments, (∀ argument ∈ arguments, argument.Within extra) →
    Answers (Within extra) (function arguments)

theorem bounded_unary (name : String) {f : Decimal → Except Fault Decimal}
    (h : ∀ extra x, x.Within extra → Answers (Within extra) (f x)) : Bounded (unary name f) := by
  intro extra arguments harguments
  rw [unary.eq_def]
  split
  · exact h extra _ (harguments _ List.mem_cons_self)
  · exact .error _

/-- A result that is representable in any case. -/
theorem bounded_unary_of_wellFormed (name : String) {f : Decimal → Except Fault Decimal}
    (h : ∀ x, Answers Decimal.WellFormed (f x)) : Bounded (unary name f) :=
  bounded_unary name fun extra x _ => (h x).mono fun _ hvalue => hvalue.within extra

theorem bounded_double (name : String) (f : Float → Float) :
    Bounded (unary name (Checked.throughDouble name f)) :=
  bounded_unary_of_wellFormed name (Checked.throughDouble_wellFormed name f)

theorem bounded_logarithm (name : String) (f : Float → Float) : Bounded (logarithm name f) := by
  apply bounded_unary_of_wellFormed
  intro x
  split
  · exact .error _
  · exact Checked.throughDouble_wellFormed name f x

theorem bounded_inverseAngle (name : String) (f : Float → Float) :
    Bounded (inverseAngle name f) := by
  apply bounded_unary_of_wellFormed
  intro x
  split
  · exact .error _
  · exact Checked.throughDouble_wellFormed name f x

theorem bounded_min : Bounded min := by
  intro extra arguments harguments
  cases arguments with
  | nil => exact .error _
  | cons x rest =>
    obtain ⟨hx, hrest⟩ := List.forall_mem_cons.mp harguments
    exact .ok (List.foldlRecOn rest _ hx fun best hbest y hy => hbest.lesser (hrest y hy))

theorem bounded_max : Bounded max := by
  intro extra arguments harguments
  cases arguments with
  | nil => exact .error _
  | cons x rest =>
    obtain ⟨hx, hrest⟩ := List.forall_mem_cons.mp harguments
    exact .ok (List.foldlRecOn rest _ hx fun best hbest y hy => hbest.greater (hrest y hy))

theorem powerStep_wellFormed (a b : Decimal) : Answers Decimal.WellFormed (powerStep a b) :=
  .orFault _ fun _ => Decimal.wellFormed_of_mul?

/-- Every multiplication fits its product, so the factor need not be representable. -/
theorem powerLoop_wellFormed {result : Decimal} (hresult : result.WellFormed) (factor : Decimal)
    (exponent : Nat) : Answers Decimal.WellFormed (powerLoop result factor exponent) := by
  induction exponent using Nat.strongRecOn generalizing result factor with
  | ind exponent ih =>
    rw [powerLoop]
    split
    · exact .ok hresult
    · rename_i hpositive
      have hnext : ∀ value : Decimal, value.WellFormed → Answers Decimal.WellFormed
          (if exponent / 2 = 0 then pure value else
            powerStep factor factor >>= fun square => powerLoop value square (exponent / 2)) := by
        intro value hvalue
        split
        · exact .ok hvalue
        · refine (powerStep_wellFormed factor factor).bind ?_
          intro square _
          exact ih (exponent / 2) (Nat.div_lt_self (Nat.pos_of_ne_zero hpositive) (by decide))
            hvalue square
      dsimp only
      split
      · exact (powerStep_wellFormed result factor).bind hnext
      · exact hnext result hresult

theorem power_wellFormed (base exponent : Decimal) :
    Answers Decimal.WellFormed (power base exponent) := by
  rw [power]
  split
  · rw [wholePower]
    split
    · exact .error _
    · refine (powerLoop_wellFormed Decimal.wellFormed_one _ _).bind ?_
      intro value hvalue
      split
      · apply Answers.orFault
        intro inverse hinverse
        split at hinverse
        · cases hinverse
        · exact Decimal.within_zero_iff.mp ((Decimal.wellFormed_one.within 0).div? hinverse)
      · exact .ok hvalue
  · split
    · exact .error _
    · exact fun _ => Checked.wellFormed_of_ofDouble

theorem bounded_pow : Bounded pow := by
  intro extra arguments _
  rw [pow, binary.eq_def]
  split
  · exact (power_wellFormed _ _).mono fun _ hvalue => hvalue.within extra
  · exact .error _

end Math

/-! ### Lazy functions -/

namespace Strategy

variable {P : Decimal → Prop} {next : Strategy}

theorem closed_takeNext {next : Decimal → Strategy} (h : ∀ value, P value → (next value).Closed P) :
    (takeNext next).Closed P := ⟨h, fun _ => trivial⟩

theorem closed_skipNext (h : next.Closed P) : (skipNext next).Closed P := ⟨h, fun _ => trivial⟩

theorem closed_skipMany (h : next.Closed P) (count : Nat) : (skipMany next count).Closed P := by
  induction count with
  | zero => exact h
  | succ count ih => exact closed_skipNext ih

end Strategy

namespace Logic

variable {P : Decimal → Prop}

theorem closed_ifThenElse : ifThenElse.Closed P := by
  intro left
  dsimp only
  split
  · apply Strategy.closed_takeNext
    intro condition _
    split
    · exact Strategy.closed_takeNext fun _ hvalue => Strategy.closed_skipNext hvalue
    · exact Strategy.closed_skipNext (Strategy.closed_takeNext fun _ hvalue => hvalue)
  · exact trivial

theorem closed_whileTruth (hP : ∀ truth, P (Decimal.ofBool truth)) (wanted : Bool) (count : Nat) :
    (whileTruth wanted count).Closed P := by
  induction count with
  | zero => exact hP wanted
  | succ count ih =>
    apply Strategy.closed_takeNext
    intro value _
    split
    · exact ih
    · have hdecided : (Strategy.finish (Decimal.ofBool !wanted)).Closed P := hP _
      exact Strategy.closed_skipMany hdecided count

theorem closed_variadic (hP : ∀ truth, P (Decimal.ofBool truth)) (name : String)
    (wanted : Bool) : (variadic name wanted).Closed P := by
  intro left
  dsimp only
  split
  · exact trivial
  · exact closed_whileTruth hP wanted left

end Logic

/-! ### Reductions -/

namespace Statistics

/-- All samples are representable, and so are their number and the precision. -/
structure Series.Representable (series : Series) : Prop where
  values : ∀ value ∈ series.values, value.WellFormed
  count : series.samples.length < capacity
  precision : series.precision ≤ maxScale

/-- On representable samples the result is within the bounds of so many divisions. -/
def Bounded (divisions : Nat) (reduction : Reduction) : Prop :=
  ∀ series numbers, series.Representable →
    Answers (Within (divisions * (series.precision - 1))) (reduction series numbers)

theorem Bounded.mono {divisions more : Nat} {reduction : Reduction}
    (h : Bounded divisions reduction) (hle : divisions ≤ more) : Bounded more reduction :=
  fun series numbers hseries => (h series numbers hseries).mono fun _ hvalue =>
    hvalue.mono (Nat.mul_le_mul_right _ hle)

variable {series : Series}

theorem exists_ends (hnonempty : series.samples ≠ []) (function : String) :
    ∃ ends, series.ends function = .ok ends := by
  obtain ⟨first, rest, hsamples⟩ := List.exists_cons_of_ne_nil hnonempty
  rw [Series.ends, Series.values, hsamples, List.map_cons, List.head?_cons,
    List.getLast?_eq_some_getLast (List.cons_ne_nil _ _)]
  exact ⟨_, rfl⟩

theorem ends_wellFormed (h : series.Representable) (function : String) :
    Answers (fun ends => ends.1.WellFormed ∧ ends.2.WellFormed) (series.ends function) := by
  rw [Series.ends]
  split
  · rename_i first last hfirst hlast
    exact .ok ⟨h.values first (List.mem_of_head? hfirst),
      h.values last (List.mem_of_getLast? hlast)⟩
  · exact .error _

/-- A division of representable numbers. -/
theorem div_once {a : Decimal} (ha : a.WellFormed) (b : Decimal) {precision : Nat}
    (hprecision : precision ≤ maxScale) :
    Answers (Within (1 * (precision - 1))) (Checked.div a b precision) :=
  (Checked.div_within (ha.within 0) b hprecision).mono fun _ hvalue => hvalue.mono (by omega)

theorem sum_wellFormed (h : series.Representable) :
    Answers Decimal.WellFormed (Checked.sum series.values) :=
  (Checked.sum_within fun value hvalue => (h.values value hvalue).within 0).mono
    fun _ => Decimal.within_zero_iff.mp

theorem mean_within (h : series.Representable) (function : String) :
    Answers (Within (1 * (series.precision - 1))) (series.mean function) := by
  rw [Series.mean]
  refine (ends_wellFormed h function).bind ?_
  intro ends _
  refine (sum_wellFormed h).bind ?_
  intro total htotal
  exact div_once htotal series.count h.precision

theorem bounded_sum : Bounded 0 sum := fun _ _ h =>
  (sum_wellFormed h).mono fun _ hvalue => hvalue.within _

theorem bounded_count : Bounded 0 count := fun _ _ h =>
  .ok ((Decimal.wellFormed_ofNat h.count).within _)

/-- A square is a product, and so is fitted whatever the deviation is; a sum of such
squares is fitted as well. -/
theorem addSquare_wellFormed {total : Decimal} (htotal : total.WellFormed)
    (mean value : Decimal) : Answers Decimal.WellFormed (addSquare mean total value) := by
  rw [addSquare]
  refine (Answers.any _).bind ?_
  intro deviation _
  refine (Checked.mul_wellFormed deviation deviation).bind ?_
  intro square hsquare
  exact (Checked.add_within (htotal.within 0) (hsquare.within 0)).mono
    fun _ => Decimal.within_zero_iff.mp

theorem bounded_deviation : Bounded 1 deviation := by
  intro series numbers h
  rw [deviation]
  refine (mean_within h "stddev").bind ?_
  intro mean _
  split
  · exact .ok (Decimal.wellFormed_zero.within _)
  · have hsquares : Answers Decimal.WellFormed
        (series.values.foldlM (addSquare mean) Decimal.zero) :=
      .foldlM Decimal.wellFormed_zero fun _ value htotal _ => addSquare_wellFormed htotal mean value
    refine hsquares.bind ?_
    intro squares hsquares
    refine (div_once hsquares series.count h.precision).bind ?_
    intro variance _
    refine (Checked.sqrt_wellFormed "stddev" variance).bind ?_
    intro root hroot
    exact .ok (((hroot.within 0).roundSignificant h.precision).mono (by omega))

theorem wellFormed_of_sorted (h : series.Representable) (index : Nat) :
    (series.sorted.getD index Decimal.zero).WellFormed := by
  rw [List.getD_eq_getElem?_getD]
  cases hvalue : series.sorted[index]? with
  | none => exact Decimal.wellFormed_zero
  | some value => exact h.values value (List.mem_mergeSort.mp (List.mem_of_getElem? hvalue))

theorem bounded_median : Bounded 1 median := by
  intro series numbers h
  rw [median]
  refine (ends_wellFormed h "median").bind ?_
  intro ends _
  dsimp only
  split
  · exact .ok ((wellFormed_of_sorted h _).within _)
  · have hbelow := wellFormed_of_sorted h (series.sorted.length / 2 - 1)
    have habove := wellFormed_of_sorted h (series.sorted.length / 2)
    refine (Checked.add_within (hbelow.within 0) (habove.within 0)).bind ?_
    intro pair hpair
    exact div_once (Decimal.within_zero_iff.mp hpair) _ h.precision

theorem mem_of_extremum? {which : Extremum} {samples : List Sample} {sample : Sample}
    (h : extremum? which samples = some sample) : sample ∈ samples := by
  cases samples with
  | nil => cases h
  | cons first rest =>
    obtain rfl := Option.some.inj h
    refine List.foldlRecOn (motive := fun best => best ∈ first :: rest) rest _
      List.mem_cons_self ?_
    intro best hbest candidate hcandidate
    split
    · exact List.mem_cons_of_mem first hcandidate
    · exact hbest

theorem bounded_extremeValue (which : Extremum) (function : String) :
    Bounded 0 (extremeValue which function) := by
  intro series numbers h
  rw [extremeValue]
  split
  · rename_i sample hsample
    exact .ok ((h.values _ (List.mem_map_of_mem (mem_of_extremum? hsample))).within _)
  · exact .error _

theorem bounded_rate : Bounded 1 rate := by
  intro series numbers h
  rw [rate]
  refine (ends_wellFormed h "rate").bind ?_
  rintro ⟨first, last⟩ ⟨hfirst, hlast⟩
  refine (Checked.sub_within (hlast.within 0) (hfirst.within 0)).bind ?_
  intro change _
  refine (Checked.mul_wellFormed change _).bind ?_
  intro total htotal
  exact div_once htotal _ h.precision

theorem bounded_percentChange : Bounded 1 percentChange := by
  intro series numbers h
  rw [percentChange]
  refine (ends_wellFormed h "percentChange").bind ?_
  rintro ⟨first, last⟩ ⟨hfirst, hlast⟩
  dsimp only
  split
  · exact .error _
  · refine (Checked.sub_within (hlast.within 0) (hfirst.within 0)).bind ?_
    intro change _
    refine (Checked.mul_wellFormed change hundred).bind ?_
    intro product hproduct
    exact div_once hproduct first h.precision

theorem bounded_percentile : Bounded 0 percentile := by
  intro series numbers h
  rw [percentile.eq_def]
  split
  · split
    · exact .error _
    · refine (ends_wellFormed h "percentile").bind ?_
      intro ends _
      refine (Answers.any _).bind ?_
      intro position _
      exact .ok ((wellFormed_of_sorted h _).within _)
  · exact .error _

end Statistics

end DerivedTelemetry
