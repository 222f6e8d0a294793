import DerivedTelemetry.Decimal.Checked
import DerivedTelemetry.Proofs.Decimal.Nearest
import DerivedTelemetry.Proofs.Decimal.Significant
import DerivedTelemetry.Proofs.OrderStatistics

/-!
# Medians

The median of an odd number of values is one of them, as it stands.  That of an even number
is half the sum of the two in the middle, each of which may be any of several values that
are equal but differ in scale.  Since sums and quotients see the values of their operands
only, this makes no difference to the value of the median, nor to whether there is one.  So
the order in which the samples came makes none either.
-/

namespace DerivedTelemetry.Checked

open Decimal

variable {a b a' b' : Decimal} {x : ℚ} {result other : Option Decimal}
  {r s : Except Fault Decimal}

/-- Two results are one number by value, or both are faults. -/
inductive Agree : Except Fault Decimal → Except Fault Decimal → Prop where
  | ok {a b : Decimal} (h : a.value = b.value) : Agree (.ok a) (.ok b)
  | error (cause cause' : Fault) : Agree (.error cause) (.error cause')

theorem Agree.bind {f g : Decimal → Except Fault Decimal} (h : Agree r s)
    (hnext : ∀ a b, r = .ok a → s = .ok b → a.value = b.value → Agree (f a) (g b)) :
    Agree (r >>= f) (s >>= g) := by
  cases h with
  | ok h => exact hnext _ _ rfl rfl h
  | error => exact .error _ _

theorem Agree.map {f : Decimal → Decimal} (h : Agree r s)
    (hnext : ∀ a b, r = .ok a → s = .ok b → a.value = b.value → (f a).value = (f b).value) :
    Agree (r.map f) (s.map f) := by
  cases h with
  | ok h => exact .ok (hnext _ _ rfl rfl h)
  | error => exact .error _ _

theorem orFault_eq_ok {cause : ArithmeticFault} {number : Decimal}
    (h : orFault result cause = .ok number) : result = some number := by
  cases hresult : result with
  | some value =>
    rw [hresult] at h
    rw [Except.ok.inj h]
  | none =>
    rw [hresult] at h
    cases h

/-- Two ways to the nearest decimal of one fraction. -/
theorem Agree.of_rounds (h : Rounds x result) (hother : Rounds x other)
    (cause cause' : ArithmeticFault) : Agree (orFault result cause) (orFault other cause') := by
  cases hresult : result with
  | some number =>
    obtain ⟨same, hsame, hvalue⟩ := h.exists_of_some hother hresult
    rw [hsame]
    exact .ok hvalue.symm
  | none =>
    cases hsame : other with
    | some same =>
      obtain ⟨number, hnumber, -⟩ := hother.exists_of_some h hsame
      rw [hresult] at hnumber
      cases hnumber
    | none => exact .error _ _

theorem agree_add (ha : a.WellFormed) (hb : b.WellFormed) (ha' : a'.WellFormed)
    (hb' : b'.WellFormed) (hleft : a.value = a'.value) (hright : b.value = b'.value) :
    Agree (add a b) (add a' b') := by
  have hother := rounds_add? ha' hb'
  rw [← hleft, ← hright] at hother
  exact .of_rounds (rounds_add? ha hb) hother _ _

theorem agree_div (ha : a.WellFormed) (ha' : a'.WellFormed) (hb : ¬b.isZero = true)
    (h : a.value = a'.value) (precision : Nat) :
    Agree (div a b precision) (div a' b precision) := by
  have hother := rounds_div? ha' hb
  rw [← h] at hother
  rw [div, div, if_neg hb, if_neg hb]
  refine (Agree.of_rounds (rounds_div? ha hb) hother _ _).map fun q q' hq hq' hvalue => ?_
  exact value_roundSignificant_eq ((ha.within 0).div? (orFault_eq_ok hq)).mantissa_lt
    ((ha'.within 0).div? (orFault_eq_ok hq')).mantissa_lt hvalue precision

end DerivedTelemetry.Checked

namespace DerivedTelemetry.Statistics

open Decimal Checked

variable {series other : Series} {a b a' b' : Decimal}

/-- Half the sum of two numbers. -/
def halfSum (precision : Nat) (a b : Decimal) : Except Fault Decimal := do
  let pair ← Checked.add a b
  Checked.div pair (Decimal.ofNat 2) precision

theorem median_of_odd (arguments : List Decimal) (hodd : series.samples.length % 2 = 1) :
    median series arguments =
      .ok (series.sorted.getD (series.samples.length / 2) Decimal.zero) := by
  have hnonempty : series.samples ≠ [] := by
    intro hempty
    rw [hempty] at hodd
    cases hodd
  obtain ⟨ends, hends⟩ := exists_ends hnonempty "median"
  rw [median, hends]
  dsimp only [bind, Except.bind]
  rw [length_sorted, if_pos hodd]
  rfl

theorem median_of_even (arguments : List Decimal) (hnonempty : series.samples ≠ [])
    (heven : series.samples.length % 2 = 0) :
    median series arguments =
      halfSum series.precision (series.sorted.getD (series.samples.length / 2 - 1) Decimal.zero)
        (series.sorted.getD (series.samples.length / 2) Decimal.zero) := by
  obtain ⟨ends, hends⟩ := exists_ends hnonempty "median"
  rw [median, hends]
  dsimp only [bind, Except.bind]
  rw [length_sorted, if_neg (by omega)]
  rfl

theorem halfSum_agree (ha : a.WellFormed) (hb : b.WellFormed) (ha' : a'.WellFormed)
    (hb' : b'.WellFormed) (hleft : a.value = a'.value) (hright : b.value = b'.value)
    (precision : Nat) : Agree (halfSum precision a b) (halfSum precision a' b') := by
  refine (agree_add ha hb ha' hb' hleft hright).bind fun pair pair' hpair hpair' hvalue => ?_
  have hfits : pair.WellFormed := within_zero_iff.mp
    ((ha.within 0).add? (hb.within 0) (orFault_eq_ok hpair))
  have hfits' : pair'.WellFormed := within_zero_iff.mp
    ((ha'.within 0).add? (hb'.within 0) (orFault_eq_ok hpair'))
  exact agree_div hfits hfits' (by decide) hvalue precision

/-- The values that an even number of samples has in the middle. -/
theorem atPosition_middle (hnonempty : series.samples ≠ [])
    (heven : series.samples.length % 2 = 0) :
    AtPosition series.values (series.samples.length / 2)
        (series.sorted.getD (series.samples.length / 2 - 1) Decimal.zero) ∧
      AtPosition series.values (series.samples.length / 2 + 1)
        (series.sorted.getD (series.samples.length / 2) Decimal.zero) := by
  have hlength : 0 < series.samples.length := List.length_pos_iff.mpr hnonempty
  have hlower := atPosition_sorted series (series.samples.length / 2 - 1) (by omega)
  rw [Nat.sub_add_cancel (by omega)] at hlower
  exact ⟨hlower, atPosition_sorted series _ (by omega)⟩

/-- The median of an even number of samples, from any two values in the middle. -/
theorem median_agree_halfSum (arguments : List Decimal) (hnonempty : series.samples ≠ [])
    (hvalues : ∀ value ∈ series.values, value.WellFormed)
    (heven : series.samples.length % 2 = 0)
    (hlower : AtPosition series.values (series.samples.length / 2) a)
    (hupper : AtPosition series.values (series.samples.length / 2 + 1) b) :
    Agree (median series arguments) (halfSum series.precision a b) := by
  obtain ⟨hlower', hupper'⟩ := atPosition_middle hnonempty heven
  rw [median_of_even arguments hnonempty heven]
  exact halfSum_agree (hvalues _ hlower'.mem) (hvalues _ hupper'.mem) (hvalues a hlower.mem)
    (hvalues b hupper.mem) (hlower'.value_eq hlower) (hupper'.value_eq hupper) series.precision

/-- The order of the samples is not seen in the median. -/
theorem median_agree_of_perm (arguments : List Decimal) (hnonempty : series.samples ≠ [])
    (hvalues : ∀ value ∈ series.values, value.WellFormed)
    (hperm : other.samples.Perm series.samples) (hprecision : other.precision = series.precision) :
    Agree (median other arguments) (median series arguments) := by
  have hlength := hperm.length_eq
  have hvaluesPerm : series.values.Perm other.values := (hperm.map _).symm
  have hnonempty' : other.samples ≠ [] := fun hempty => hnonempty (hempty ▸ hperm).nil_eq.symm
  have hvalues' : ∀ value ∈ other.values, value.WellFormed :=
    fun value hvalue => hvalues value (hvaluesPerm.mem_iff.mpr hvalue)
  rcases Nat.mod_two_eq_zero_or_one series.samples.length with heven | hodd
  · obtain ⟨hlower, hupper⟩ := atPosition_middle hnonempty heven
    rw [median_of_even arguments hnonempty heven, ← hprecision]
    refine median_agree_halfSum arguments hnonempty' hvalues' (hlength ▸ heven) ?_ ?_
    · rw [hlength]
      exact hlower.perm hvaluesPerm
    · rw [hlength]
      exact hupper.perm hvaluesPerm
  · rw [median_of_odd arguments hodd, median_of_odd arguments (hlength ▸ hodd), hlength]
    have hmiddle := atPosition_sorted series (series.samples.length / 2) (by omega)
    have hmiddle' := atPosition_sorted other (series.samples.length / 2) (by omega)
    exact .ok (hmiddle'.value_eq (hmiddle.perm hvaluesPerm))

/-- No more than half of the other values are on either side of the median of an odd number
of samples. -/
theorem countP_middle_le (hodd : series.samples.length % 2 = 1)
    (hmiddle : AtPosition series.values (series.samples.length / 2 + 1) a) :
    series.values.countP (· < a) ≤ (series.samples.length - 1) / 2 ∧
      series.values.countP (a < ·) ≤ (series.samples.length - 1) / 2 := by
  have hlength := length_values series
  have hbelow := hmiddle.below_lt
  have habove := hmiddle.countP_gt_le
  omega

/-- The median stands in the middle of the samples.  It is one of an odd number of them, not
rounded, and of an even number it is half the sum of the two middle ones, whichever of equal
values these are taken to be.  In any order the same samples have the same median by value,
or none. -/
theorem median_stands_in_middle (arguments : List Decimal) (hnonempty : series.samples ≠ [])
    (hvalues : ∀ value ∈ series.values, value.WellFormed) :
    (series.samples.length % 2 = 1 → ∃ middle, median series arguments = .ok middle ∧
      middle ∈ series.values ∧
      series.values.countP (· < middle) ≤ (series.samples.length - 1) / 2 ∧
      series.values.countP (middle < ·) ≤ (series.samples.length - 1) / 2) ∧
    (series.samples.length % 2 = 0 →
      (∃ lower upper, AtPosition series.values (series.samples.length / 2) lower ∧
        AtPosition series.values (series.samples.length / 2 + 1) upper ∧
        median series arguments = halfSum series.precision lower upper) ∧
      ∀ lower upper, AtPosition series.values (series.samples.length / 2) lower →
        AtPosition series.values (series.samples.length / 2 + 1) upper →
        Agree (median series arguments) (halfSum series.precision lower upper)) ∧
    ∀ samples, samples.Perm series.samples →
      Agree (median { series with samples := samples } arguments) (median series arguments) := by
  refine ⟨fun hodd => ?_, fun heven => ⟨?_, fun lower upper hlower hupper => ?_⟩,
    fun samples hperm => ?_⟩
  · have hmiddle := atPosition_sorted series (series.samples.length / 2) (by omega)
    exact ⟨_, median_of_odd arguments hodd, hmiddle.mem, countP_middle_le hodd hmiddle⟩
  · obtain ⟨hlower, hupper⟩ := atPosition_middle hnonempty heven
    exact ⟨_, _, hlower, hupper, median_of_even arguments hnonempty heven⟩
  · exact median_agree_halfSum arguments hnonempty hvalues heven hlower hupper
  · exact median_agree_of_perm arguments hnonempty hvalues hperm rfl

/-- Two of the four values are equal, and the one of greater scale comes last. -/
def unevenFour : Series := eachMinute [ofNat 3, ⟨false, 15, 1⟩, ofNat 10, ⟨false, 150, 2⟩]

theorem median_stands_in_middle_of_four :
    unevenFour.samples ≠ [] ∧ (∀ value ∈ unevenFour.values, value.WellFormed) ∧
      unevenFour.samples.length % 2 = 0 ∧
      AtPosition unevenFour.values 2 ⟨false, 15, 1⟩ ∧ AtPosition unevenFour.values 3 (ofNat 3) ∧
      Agree (median unevenFour []) (.ok ⟨false, 2250000000, 9⟩) ∧
      Agree (median { unevenFour with samples := unevenFour.samples.reverse } [])
        (median unevenFour []) := by
  have hnonempty : unevenFour.samples ≠ [] := List.cons_ne_nil _ _
  have hvalues : ∀ value ∈ unevenFour.values, value.WellFormed := by decide +kernel
  have hlower : AtPosition unevenFour.values 2 ⟨false, 15, 1⟩ :=
    ⟨by decide +kernel, by decide +kernel, by decide +kernel⟩
  have hupper : AtPosition unevenFour.values 3 (ofNat 3) :=
    ⟨by decide +kernel, by decide +kernel, by decide +kernel⟩
  obtain ⟨-, heven, hperm⟩ := median_stands_in_middle [] hnonempty hvalues
  have hhalf : halfSum 10 ⟨false, 15, 1⟩ (ofNat 3) = .ok ⟨false, 2250000000, 9⟩ := by decide +kernel
  have hmedian := (heven rfl).2 _ _ hlower hupper
  rw [show unevenFour.precision = 10 from rfl, hhalf] at hmedian
  exact ⟨hnonempty, hvalues, rfl, hlower, hupper, hmedian,
    hperm _ (List.reverse_perm unevenFour.samples)⟩

end DerivedTelemetry.Statistics
