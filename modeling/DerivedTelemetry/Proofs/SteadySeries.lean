import DerivedTelemetry.Function.Statistics
import DerivedTelemetry.Proofs.Division
import DerivedTelemetry.Proofs.Function.BoundedFunctions

/-!
# Series that do not change

The mean of equal values is a quotient, and like every quotient it is rounded to significant
digits.  A series that does not change has no deviation from its mean, so long as the mean
is not rounded: the values have no more significant digits than are kept, and their sum is
exact.  A single sample is not compared with its mean at all.

Otherwise all values lie on the same side of their mean, and a deviation is found where
there is none.
-/

namespace DerivedTelemetry.Statistics

open Decimal Rounding

variable {series : Series} {mean total : Decimal} {x : ℚ}

theorem mean_eq_div (function : String) (hnonempty : series.samples ≠ [])
    (hsum : Checked.sum series.values = .ok total) :
    series.mean function = Checked.div total series.count series.precision := by
  obtain ⟨ends, hends⟩ := exists_ends hnonempty function
  rw [Series.mean, hends, hsum]
  rfl

theorem count_ne_zero (hnonempty : series.samples ≠ []) : ¬series.count.isZero = true := by
  rw [Series.count, isZero_iff_value_eq_zero, value_ofNat, Nat.cast_eq_zero]
  exact mt List.length_eq_zero_iff.mp hnonempty

/-- A value that equals the mean adds nothing. -/
theorem addSquare_of_value_eq {value : Decimal} (h : value.value = mean.value) :
    addSquare mean Decimal.zero value = .ok Decimal.zero := by
  have hchange : Representable (value.value - mean.value) := by
    rw [h, sub_self]
    exact representable_zero
  obtain ⟨change, hcomputed, hexact⟩ := exists_sub? hchange
  rw [h, sub_self, ← isZero_iff_value_eq_zero] at hexact
  have hsquare : change.mul? change = some Decimal.zero := by
    rw [mul?, hexact]
    rfl
  rw [addSquare, Checked.sub, hcomputed]
  change (Checked.mul change change >>= Checked.add Decimal.zero) = _
  rw [Checked.mul, hsquare]
  rfl

theorem squares_of_value_eq {values : List Decimal}
    (h : ∀ value ∈ values, value.value = mean.value) :
    values.foldlM (addSquare mean) Decimal.zero = .ok Decimal.zero := by
  induction values with
  | nil => rfl
  | cons first rest ih =>
    obtain ⟨hfirst, hrest⟩ := List.forall_mem_cons.mp h
    rw [List.foldlM_cons, addSquare_of_value_eq hfirst]
    exact ih hrest

theorem sqrt_zero : Checked.sqrt "stddev" Decimal.zero = .ok Decimal.zero := by decide +kernel

theorem div_zero_count (hnonempty : series.samples ≠ []) :
    Checked.div Decimal.zero series.count series.precision = .ok Decimal.zero := by
  rw [Checked.div, if_neg (count_ne_zero hnonempty)]
  rfl

/-- Values that equal their mean have no deviation from it. -/
theorem deviation_of_value_eq (arguments : List Decimal) (hnonempty : series.samples ≠ [])
    (hmean : series.mean "stddev" = .ok mean)
    (h : series.samples.length = 1 ∨ ∀ value ∈ series.values, value.value = mean.value) :
    deviation series arguments = .ok Decimal.zero := by
  rw [deviation, hmean]
  dsimp only [bind, Except.bind]
  by_cases hsingle : series.samples.length = 1
  · rw [if_pos hsingle]
    rfl
  · rw [if_neg hsingle, squares_of_value_eq (h.resolve_left hsingle)]
    dsimp only
    rw [div_zero_count hnonempty]
    dsimp only
    rw [sqrt_zero]
    rfl

/-- The standard deviation of equal values is zero: of a single one, and of several that are
not rounded by taking their mean. -/
theorem deviation_of_equal_values (arguments : List Decimal) (hnonempty : series.samples ≠ [])
    (hrepresentable : ∀ value ∈ series.values, value.WellFormed)
    (hequal : ∀ value ∈ series.values, value.value = x)
    (hsum : Checked.sum series.values = .ok total) (hprecision : 1 ≤ series.precision)
    (hdigits : series.samples.length = 1 ∨
      (total.value = series.samples.length * x ∧ toSignificant series.precision x = x)) :
    deviation series arguments = .ok Decimal.zero := by
  have htotal : total.WellFormed := within_zero_iff.mp
    (Checked.sum_within (fun value hvalue => (hrepresentable value hvalue).within 0) total hsum)
  have hcount : ((series.samples.length : Nat) : ℚ) ≠ 0 := by
    rw [Nat.cast_ne_zero]
    exact mt List.length_eq_zero_iff.mp hnonempty
  have hfirst : Representable x := by
    obtain ⟨value, hvalue⟩ := List.exists_mem_of_ne_nil series.values
      (mt List.map_eq_nil_iff.mp hnonempty)
    exact hequal value hvalue ▸ (hrepresentable value hvalue).representable
  have hquotient : Representable (total.value / series.count.value) := by
    rw [Series.count, value_ofNat]
    rcases hdigits with hsingle | ⟨hexact, -⟩
    · rw [hsingle, Nat.cast_one, div_one]
      exact htotal.representable
    · rw [hexact, mul_div_cancel_left₀ _ hcount]
      exact hfirst
  obtain ⟨mean, hmean, hvalue⟩ := Checked.exists_div htotal (count_ne_zero hnonempty)
    hprecision hquotient
  rw [← mean_eq_div "stddev" hnonempty hsum] at hmean
  refine deviation_of_value_eq arguments hnonempty hmean (hdigits.imp_right ?_)
  rintro ⟨hexact, hkept⟩ value hmem
  rw [hequal value hmem, hvalue, Series.count, value_ofNat, hexact,
    mul_div_cancel_left₀ _ hcount, settled, hkept, ite_self]

/-- The same value twice, a minute apart, with the ten digits that divisions keep unless they
are set otherwise. -/
def measuredTwice (value : Decimal) : Series :=
  ⟨[⟨⟨0, 0⟩, value⟩, ⟨⟨60, 0⟩, value⟩], .oneHour, 10⟩

theorem deviation_of_equal_values_short :
    (measuredTwice ⟨false, 150, 2⟩).samples ≠ [] ∧
      (∀ value ∈ (measuredTwice ⟨false, 150, 2⟩).values, value.WellFormed) ∧
      (∀ value ∈ (measuredTwice ⟨false, 150, 2⟩).values, value.value = 3 / 2) ∧
      Checked.sum (measuredTwice ⟨false, 150, 2⟩).values = .ok ⟨false, 300, 2⟩ ∧
      1 ≤ (measuredTwice ⟨false, 150, 2⟩).precision ∧
      (value ⟨false, 300, 2⟩ = (2 : Nat) * (3 / 2) ∧ toSignificant 10 (3 / 2) = 3 / 2) ∧
      deviation (measuredTwice ⟨false, 150, 2⟩) [] = .ok Decimal.zero := by
  have hnonempty : (measuredTwice ⟨false, 150, 2⟩).samples ≠ [] := List.cons_ne_nil _ _
  have hrepresentable : ∀ value ∈ (measuredTwice ⟨false, 150, 2⟩).values, value.WellFormed := by
    decide +kernel
  have hvalue : value ⟨false, 150, 2⟩ = 3 / 2 := by
    rw [value_of_positive]
    norm_num
  have hequal : ∀ value ∈ (measuredTwice ⟨false, 150, 2⟩).values, value.value = 3 / 2 := by
    intro value hmem
    rcases List.mem_pair.mp hmem with rfl | rfl <;> exact hvalue
  have hsum : Checked.sum (measuredTwice ⟨false, 150, 2⟩).values = .ok ⟨false, 300, 2⟩ := by
    decide +kernel
  have hexact : value ⟨false, 300, 2⟩ = (2 : Nat) * (3 / 2) := by
    rw [value_of_positive]
    norm_num
  have hkept : toSignificant 10 (3 / 2) = 3 / 2 := by
    rw [← hvalue]
    exact toSignificant_of_few_digits (by decide) (by decide) (by decide +kernel)
  exact ⟨hnonempty, hrepresentable, hequal, hsum, by decide, ⟨hexact, hkept⟩,
    deviation_of_equal_values [] hnonempty hrepresentable hequal hsum (by decide)
      (Or.inr ⟨hexact, hkept⟩)⟩

/-- A value of one digit too many deviates from itself by the half that its mean is rounded
by.  Further from the point the square of that half is too large for a decimal. -/
theorem deviation_from_rounded_mean :
    (Checked.sum (measuredTwice (ofNat 12345678905)).values = .ok (ofNat 24691357810) ∧
      deviation (measuredTwice (ofNat 12345678905)) [] = .ok ⟨false, 5000000000, 9⟩ ∧
      ¬isZero ⟨false, 5000000000, 9⟩ = true) ∧
    (Checked.sum (measuredTwice (ofNat 1234567890500000000000000)).values =
        .ok (ofNat 2469135781000000000000000) ∧
      deviation (measuredTwice (ofNat 1234567890500000000000000)) [] =
        .error (.arithmetic (.overflow .mul ⟨true, 500000000000000, 0⟩
          ⟨true, 500000000000000, 0⟩))) := by
  decide +kernel

end DerivedTelemetry.Statistics
