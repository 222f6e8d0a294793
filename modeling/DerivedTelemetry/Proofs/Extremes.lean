import DerivedTelemetry.Proofs.OrderStatistics

/-!
# Extreme values of samples and of numbers

Two folds look for the least or the greatest of some values.  Over samples the best one is
replaced only by a strictly better one, so that the earliest of equal ones is kept.  Over
numbers the lesser of two is the first of equal ones, and the greater is the last.

Equal values differ in scale or in the sign of zero at most.  So both folds find the same
value, and the order in which the values come is not seen in it.
-/

namespace DerivedTelemetry.Statistics

open Decimal

variable {which : Extremum} {values other : List Decimal} {a b extreme : Decimal}
  {series : Series}

/-- The function of numbers that looks for one end. -/
def Extremum.function : Extremum → Math.NumericFunction
  | .least => Math.min
  | .greatest => Math.max

/-- The reduction of a window that looks for one end. -/
def Extremum.reduction : Extremum → Reduction
  | .least => minimum
  | .greatest => maximum

/-- The one of two numbers that is nearer to one end. -/
def Extremum.nearer : Extremum → Decimal → Decimal → Decimal
  | .least => lesser
  | .greatest => greater

theorem Extremum.key_injective (which : Extremum) {x y : ℚ} (h : which.key x = which.key y) :
    x = y := by
  cases which
  · exact h
  · exact neg_inj.mp h

theorem Extremum.nearer_eq_or (which : Extremum) (a b : Decimal) :
    which.nearer a b = a ∨ which.nearer a b = b := by
  cases which
  · exact (ite_eq_or_eq (b < a) b a).symm
  · exact ite_eq_or_eq (b < a) a b

theorem Extremum.key_nearer_le (which : Extremum) (a b : Decimal) :
    which.key (which.nearer a b).value ≤ which.key a.value ∧
      which.key (which.nearer a b).value ≤ which.key b.value := by
  cases which
  · change (lesser a b).value ≤ a.value ∧ (lesser a b).value ≤ b.value
    rw [lesser]
    split
    · rename_i hless
      exact ⟨(lt_iff_value_lt.mp hless).le, le_rfl⟩
    · rename_i hnot
      exact ⟨le_rfl, not_lt.mp (mt lt_iff_value_lt.mpr hnot)⟩
  · change -(greater a b).value ≤ -a.value ∧ -(greater a b).value ≤ -b.value
    rw [greater, neg_le_neg_iff, neg_le_neg_iff]
    split
    · rename_i hless
      exact ⟨le_rfl, (lt_iff_value_lt.mp hless).le⟩
    · rename_i hnot
      exact ⟨not_lt.mp (mt lt_iff_value_lt.mpr hnot), le_rfl⟩

/-- One of the values, with none nearer to the end: it is less than or equal to all others, or
greater than or equal to them. -/
structure IsExtreme (which : Extremum) (values : List Decimal) (extreme : Decimal) : Prop where
  mem : extreme ∈ values
  key_le : ∀ value ∈ values, which.key extreme.value ≤ which.key value.value

theorem IsExtreme.value_eq (ha : IsExtreme which values a) (hb : IsExtreme which values b) :
    a.value = b.value :=
  which.key_injective (le_antisymm (ha.key_le b hb.mem) (hb.key_le a ha.mem))

theorem IsExtreme.perm (h : IsExtreme which values extreme) (hperm : values.Perm other) :
    IsExtreme which other extreme :=
  ⟨hperm.mem_iff.mp h.mem, fun value hvalue => h.key_le value (hperm.mem_iff.mpr hvalue)⟩

/-- The nearer of the extreme value so far and the next one is the extreme value of both. -/
theorem IsExtreme.step (h : IsExtreme which values extreme) (next : Decimal) :
    IsExtreme which (values ++ [next]) (which.nearer extreme next) := by
  obtain ⟨hextreme, hnext⟩ := which.key_nearer_le extreme next
  refine ⟨?_, fun value hvalue => ?_⟩
  · rcases which.nearer_eq_or extreme next with heq | heq
    · rw [heq]
      exact List.mem_append_left _ h.mem
    · rw [heq]
      exact List.mem_append_right _ List.mem_cons_self
  · rcases List.mem_append.mp hvalue with hvalue | hvalue
    · exact hextreme.trans (h.key_le value hvalue)
    · exact List.mem_singleton.mp hvalue ▸ hnext

theorem IsExtreme.foldl (h : IsExtreme which values extreme) (rest : List Decimal) :
    IsExtreme which (values ++ rest) (rest.foldl which.nearer extreme) := by
  induction rest generalizing values extreme with
  | nil => rwa [List.append_nil]
  | cons next rest ih =>
    have hrun := ih (h.step next)
    rwa [List.append_assoc] at hrun

theorem exists_function (which : Extremum) (hvalues : values ≠ []) :
    ∃ extreme, which.function values = .ok extreme ∧ IsExtreme which values extreme := by
  obtain ⟨first, rest, rfl⟩ := List.exists_cons_of_ne_nil hvalues
  have hfirst : IsExtreme which [first] first :=
    ⟨List.mem_cons_self, fun value hvalue => List.mem_singleton.mp hvalue ▸ le_rfl⟩
  refine ⟨rest.foldl which.nearer first, ?_, hfirst.foldl rest⟩
  cases which <;> rfl

theorem exists_reduction (which : Extremum) (series : Series) (arguments : List Decimal)
    (hsamples : series.samples ≠ []) :
    ∃ extreme, which.reduction series arguments = .ok extreme ∧
      IsExtreme which series.values extreme := by
  have hextreme : ∀ function, ∃ extreme,
      extremeValue which function series arguments = .ok extreme ∧
        IsExtreme which series.values extreme := by
    intro function
    obtain ⟨extreme, hanswer, hmem, hall⟩ :=
      exists_extremeValue which function arguments hsamples
    exact ⟨extreme, hanswer, hmem, hall⟩
  cases which
  · exact hextreme "minTime"
  · exact hextreme "maxTime"

/-- The sample at one end is the earliest of those that are nearest to it.  The function of
numbers answers one of the numbers with none nearer to the end.  The values of both agree on
the same values, and each of them agrees with itself on the same values in another order. -/
theorem extremes_agree (which : Extremum) (arguments : List Decimal)
    (hsamples : series.samples ≠ []) (hvalues : values ≠ []) :
    ((∃ best, extremum? which series.samples = some best) ∧
      ∀ best, extremum? which series.samples = some best ↔
        Earliest which series.samples best) ∧
    (∃ extreme, which.function values = .ok extreme ∧ IsExtreme which values extreme) ∧
    (series.values.Perm values → ∃ a b, which.reduction series arguments = .ok a ∧
      which.function values = .ok b ∧ a.value = b.value) ∧
    (∀ samples, samples.Perm series.samples → ∃ a b,
      which.reduction { series with samples := samples } arguments = .ok a ∧
        which.reduction series arguments = .ok b ∧ a.value = b.value) ∧
    ∀ other, other.Perm values → ∃ a b, which.function other = .ok a ∧
      which.function values = .ok b ∧ a.value = b.value := by
  obtain ⟨best, hbest⟩ := exists_extremum? which hsamples
  obtain ⟨reduced, hreduced, hreducedExtreme⟩ := exists_reduction which series arguments hsamples
  obtain ⟨found, hfound, hfoundExtreme⟩ := exists_function which hvalues
  refine ⟨⟨⟨best, hbest⟩, fun sample => ⟨earliest_of_extremum?, fun hearliest => ?_⟩⟩,
    ⟨found, hfound, hfoundExtreme⟩, fun hperm => ?_, fun samples hperm => ?_,
    fun other hperm => ?_⟩
  · rw [hbest, (earliest_of_extremum? hbest).unique hearliest]
  · exact ⟨reduced, found, hreduced, hfound,
      (hreducedExtreme.perm hperm).value_eq hfoundExtreme⟩
  · have hnonempty : samples ≠ [] := fun hempty => hsamples (hempty ▸ hperm).nil_eq.symm
    obtain ⟨again, hagain, hagainExtreme⟩ :=
      exists_reduction which { series with samples := samples } arguments hnonempty
    exact ⟨again, reduced, hagain, hreduced,
      (hagainExtreme.perm (hperm.map _)).value_eq hreducedExtreme⟩
  · have hnonempty : other ≠ [] := fun hempty => hvalues (hempty ▸ hperm).nil_eq.symm
    obtain ⟨again, hagain, hagainExtreme⟩ := exists_function which hnonempty
    exact ⟨again, found, hagain, hfound, (hagainExtreme.perm hperm).value_eq hfoundExtreme⟩

/-- Two of the four values are the greatest, and they differ in scale.  The sample that comes
first is found, but the number that comes last. -/
theorem extremes_agree_of_ties :
    let series := eachMinute [⟨true, 0, 0⟩, ⟨false, 10, 1⟩, Decimal.one, Decimal.zero]
    (series.samples ≠ [] ∧ series.values ≠ []) ∧
      Earliest .greatest series.samples ⟨⟨60, 0⟩, ⟨false, 10, 1⟩⟩ ∧
      IsExtreme .greatest series.values Decimal.one ∧
      maximum series [] = .ok ⟨false, 10, 1⟩ ∧ Math.max series.values = .ok Decimal.one ∧
      value ⟨false, 10, 1⟩ = Decimal.one.value := by
  intro series
  have hsamples : series.samples ≠ [] := List.cons_ne_nil _ _
  have hvalues : series.values ≠ [] := List.cons_ne_nil _ _
  have hbest : extremum? .greatest series.samples = some ⟨⟨60, 0⟩, ⟨false, 10, 1⟩⟩ := by
    decide +kernel
  have hreduced : maximum series [] = .ok ⟨false, 10, 1⟩ := by decide +kernel
  have hfound : Math.max series.values = .ok Decimal.one := by decide +kernel
  obtain ⟨⟨-, hearliest⟩, ⟨extreme, hextreme, hisExtreme⟩, hagree, -, -⟩ :=
    extremes_agree .greatest [] hsamples hvalues
  obtain ⟨a, b, ha, hb, hvalue⟩ := hagree (List.Perm.refl _)
  obtain rfl := Except.ok.inj (hfound.symm.trans hextreme)
  obtain rfl := Except.ok.inj (hreduced.symm.trans ha)
  obtain rfl := Except.ok.inj (hfound.symm.trans hb)
  exact ⟨⟨hsamples, hvalues⟩, (hearliest _).mp hbest, hisExtreme, hreduced, hfound, hvalue⟩

end DerivedTelemetry.Statistics
