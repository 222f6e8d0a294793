import DerivedTelemetry.Proofs.Decimal.Nearest
import DerivedTelemetry.Proofs.Decimal.SignificantOrder
import DerivedTelemetry.Proofs.OrderStatistics
import DerivedTelemetry.Proofs.SteadySeries
import Mathlib.Algebra.Order.BigOperators.Group.List

/-!
# Means

The mean is rounded twice, to a decimal and then to significant digits.  As long as the sum
is not rounded as well, it lies between the extreme values, each of them rounded to as many
digits.  For both roundings keep the order, and the first one leaves the extreme values as
they are.

A sum that is rounded, even in one step, could be off by more than the values differ.
-/

namespace DerivedTelemetry.Checked

open Decimal

variable {start total : Decimal} {values : List Decimal} {low high : ℚ}

/-- Adding up the values from a start has a result in every step, and none is rounded. -/
def AddsExactly (start : Decimal) : List Decimal → Prop
  | [] => True
  | value :: rest => ∃ next, add start value = .ok next ∧
      next.value = start.value + value.value ∧ AddsExactly next rest

theorem AddsExactly.exists_sum (h : AddsExactly start values) :
    ∃ total, values.foldlM add start = .ok total ∧
      total.value = start.value + (values.map value).sum := by
  induction values generalizing start with
  | nil => exact ⟨start, rfl, by rw [List.map_nil, List.sum_nil, add_zero]⟩
  | cons first rest ih =>
    obtain ⟨next, hnext, hexact, hrest⟩ := h
    obtain ⟨total, htotal, hvalue⟩ := ih hrest
    refine ⟨total, ?_, ?_⟩
    · rw [List.foldlM_cons, hnext]
      exact htotal
    · rw [hvalue, hexact, List.map_cons, List.sum_cons, add_assoc]

theorem length_mul_le_sum (h : ∀ value ∈ values, low ≤ value.value) :
    values.length * low ≤ (values.map value).sum := by
  have hsum := List.card_nsmul_le_sum (values.map value) low
    (List.forall_mem_map.mpr h)
  rwa [List.length_map, nsmul_eq_mul] at hsum

theorem sum_le_length_mul (h : ∀ value ∈ values, value.value ≤ high) :
    (values.map value).sum ≤ values.length * high := by
  have hsum := List.sum_le_card_nsmul (values.map value) high
    (List.forall_mem_map.mpr h)
  rwa [List.length_map, nsmul_eq_mul] at hsum

end DerivedTelemetry.Checked

namespace DerivedTelemetry.Statistics

open Decimal Checked

variable {series : Series} {total least greatest : Decimal}

/-- An exact sum is between as many times the extreme values. -/
theorem total_div_between (hnonempty : series.samples ≠ [])
    (htotal : total.value = (series.values.map value).sum)
    (hleast : ∀ v ∈ series.values, least.value ≤ v.value)
    (hgreatest : ∀ v ∈ series.values, v.value ≤ greatest.value) :
    least.value ≤ total.value / series.count.value ∧
      total.value / series.count.value ≤ greatest.value := by
  have hlength := length_values series
  have hcount : (0 : ℚ) < series.samples.length := by
    exact_mod_cast List.length_pos_iff.mpr hnonempty
  have hlow := length_mul_le_sum hleast
  have hhigh := sum_le_length_mul hgreatest
  rw [Series.count, value_ofNat, htotal, le_div_iff₀ hcount, div_le_iff₀ hcount, ← hlength]
  exact ⟨by linarith, by linarith⟩

/-- The mean is between the extreme values, each rounded as it is, whatever function asks for
it. -/
theorem exists_mean_between (hnonempty : series.samples ≠ [])
    (hvalues : ∀ value ∈ series.values, value.WellFormed)
    (hexact : AddsExactly Decimal.zero series.values) (hprecision : 1 ≤ series.precision)
    (hleast : least ∈ series.values ∧ ∀ v ∈ series.values, least.value ≤ v.value)
    (hgreatest : greatest ∈ series.values ∧ ∀ v ∈ series.values, v.value ≤ greatest.value) :
    ∃ mean, (∀ function, series.mean function = .ok mean) ∧
      least.roundSignificant series.precision ≤ mean ∧
      mean ≤ greatest.roundSignificant series.precision := by
  obtain ⟨total, hsum, htotal⟩ := hexact.exists_sum
  rw [value_zero, zero_add] at htotal
  have hfits : total.WellFormed := within_zero_iff.mp
    (Checked.sum_within (fun value hvalue => (hvalues value hvalue).within 0) total hsum)
  have hleastFits := hvalues least hleast.1
  have hgreatestFits := hvalues greatest hgreatest.1
  obtain ⟨hlow, hhigh⟩ := total_div_between hnonempty htotal hleast.2 hgreatest.2
  have hroom : |total.value / series.count.value| ≤ capacity - 1 :=
    abs_le.mpr ⟨(abs_le.mp hleastFits.abs_value_le).1.trans hlow,
      hhigh.trans (abs_le.mp hgreatestFits.abs_value_le).2⟩
  have hcount := count_ne_zero hnonempty
  obtain ⟨quotient, hquotient, hnearest⟩ := (rounds_div? hfits hcount).exists_of_abs_le hroom
  have hquotientFits : quotient.WellFormed :=
    within_zero_iff.mp ((hfits.within 0).div? hquotient)
  refine ⟨quotient.roundSignificant series.precision, fun function => ?_, ?_, ?_⟩
  · rw [mean_eq_div function hnonempty hsum, Checked.div, if_neg hcount, hquotient]
    rfl
  · exact roundSignificant_mono hleastFits hquotientFits hprecision
      (hleastFits.nearest.mono hnearest hlow)
  · exact roundSignificant_mono hquotientFits hgreatestFits hprecision
      (hnearest.mono hgreatestFits.nearest hhigh)

/-- The average of values that are added up exactly is between the extreme values, rounded to
the digits that are kept, and it is the moving average as well. -/
theorem average_between_extremes (arguments : List Decimal) (hnonempty : series.samples ≠ [])
    (hvalues : ∀ value ∈ series.values, value.WellFormed)
    (hexact : AddsExactly Decimal.zero series.values) (hprecision : 1 ≤ series.precision) :
    ∃ mean least greatest, average series arguments = .ok mean ∧
      movingAverage series arguments = .ok mean ∧ minimum series arguments = .ok least ∧
      maximum series arguments = .ok greatest ∧
      least.roundSignificant series.precision ≤ mean ∧
      mean ≤ greatest.roundSignificant series.precision := by
  obtain ⟨least, hleast, hleastMin⟩ := exists_minimum arguments hnonempty
  obtain ⟨greatest, hgreatest, hgreatestMax⟩ := exists_maximum arguments hnonempty
  obtain ⟨mean, hmean, hlow, hhigh⟩ :=
    exists_mean_between hnonempty hvalues hexact hprecision hleastMin hgreatestMax
  exact ⟨mean, least, greatest, hmean "avg", hmean "movingAvg", hleast, hgreatest, hlow, hhigh⟩

/-- Three values of both signs and different scales. -/
def unevenThree : Series := eachMinute [⟨false, 15, 1⟩, ⟨true, 25, 2⟩, ofNat 1]

theorem average_between_extremes_of_three :
    unevenThree.samples ≠ [] ∧ (∀ value ∈ unevenThree.values, value.WellFormed) ∧
      AddsExactly Decimal.zero unevenThree.values ∧ 1 ≤ unevenThree.precision ∧
      ∃ mean, average unevenThree [] = .ok mean ∧ movingAverage unevenThree [] = .ok mean ∧
        (⟨true, 25, 2⟩ : Decimal).roundSignificant 10 ≤ mean ∧
        mean ≤ (⟨false, 15, 1⟩ : Decimal).roundSignificant 10 := by
  have hnonempty : unevenThree.samples ≠ [] := List.cons_ne_nil _ _
  have hvalues : ∀ value ∈ unevenThree.values, value.WellFormed := by decide +kernel
  have hexact : AddsExactly Decimal.zero unevenThree.values :=
    ⟨⟨false, 15, 1⟩, by decide +kernel, by decide +kernel,
      ⟨false, 125, 2⟩, by decide +kernel, by decide +kernel,
      ⟨false, 225, 2⟩, by decide +kernel, by decide +kernel, trivial⟩
  obtain ⟨mean, least, greatest, hmean, hmoving, hleast, hgreatest, hlow, hhigh⟩ :=
    average_between_extremes [] hnonempty hvalues hexact (by decide)
  have hleast' : minimum unevenThree [] = .ok ⟨true, 25, 2⟩ := by decide +kernel
  have hgreatest' : maximum unevenThree [] = .ok ⟨false, 15, 1⟩ := by decide +kernel
  obtain rfl := Except.ok.inj (hleast'.symm.trans hleast)
  obtain rfl := Except.ok.inj (hgreatest'.symm.trans hgreatest)
  exact ⟨hnonempty, hvalues, hexact, by decide, mean, hmean, hmoving, hlow, hhigh⟩

/-- Twice this value has a digit too many, and the rounded sum has a greater average. -/
example :
    let value : Decimal := ⟨false, 70000000000000000000000000004, 28⟩
    average { eachMinute [value, value] with precision := 28 } [] =
        .ok ⟨false, 7000000000000000000000000001, 27⟩ ∧
      value.roundSignificant 28 = ⟨false, 7000000000000000000000000000, 27⟩ := by
  decide +kernel

end DerivedTelemetry.Statistics
