import DerivedTelemetry.Decimal.Value
import DerivedTelemetry.Proofs.Function.BoundedFunctions
import Mathlib.Algebra.Order.Ring.Rat
import Mathlib.Tactic.Linarith

/-!
# Positions in ascending order

Reductions that look for a value by its rank sort the values of a window.  What they find is
known without sorting: a value is at a position when fewer values than that are below it,
and at least as many are not above it.  Values at the same position are equal, though they
may differ in scale, and a later position holds no lesser value.

The extreme values of a window are found by a fold instead.  They are the first and the last
position of the same order.
-/

namespace DerivedTelemetry.Statistics

open Decimal

/-- A value at a position, counted from one, in the ascending order of values. -/
structure AtPosition (values : List Decimal) (position : Nat) (value : Decimal) : Prop where
  mem : value ∈ values
  below_lt : values.countP (· < value) < position
  le_upTo : position ≤ values.countP (· ≤ value)

variable {values other : List Decimal} {position later index : Nat} {a b value : Decimal}
  {series : Series} {which : Extremum} {samples : List Sample} {best sample : Sample}

/-! ### Positions without sorting -/

theorem AtPosition.perm (h : AtPosition values position value) (hperm : values.Perm other) :
    AtPosition other position value :=
  ⟨hperm.mem_iff.mp h.mem, hperm.countP_eq _ ▸ h.below_lt, hperm.countP_eq _ ▸ h.le_upTo⟩

theorem AtPosition.value_le (ha : AtPosition values position a)
    (hb : AtPosition values later b) (hle : position ≤ later) : a.value ≤ b.value := by
  by_contra hgreater
  have hcount : values.countP (· ≤ b) ≤ values.countP (· < a) := by
    refine List.countP_mono_left fun v _ hv => ?_
    rw [decide_eq_true_eq, le_iff_value_le] at hv
    rw [decide_eq_true_eq, lt_iff_value_lt]
    exact lt_of_le_of_lt hv (not_le.mp hgreater)
  have hbelow := ha.below_lt
  have hupTo := hb.le_upTo
  omega

theorem AtPosition.value_eq (ha : AtPosition values position a)
    (hb : AtPosition values position b) : a.value = b.value :=
  le_antisymm (ha.value_le hb le_rfl) (hb.value_le ha le_rfl)

theorem AtPosition.position_le_length (h : AtPosition values position value) :
    position ≤ values.length :=
  h.le_upTo.trans List.countP_le_length

/-- Every value has one of two properties that exclude each other. -/
theorem countP_add_countP_of_not {p q : Decimal → Bool} (h : ∀ v, q v = true ↔ ¬p v = true) :
    values.countP p + values.countP q = values.length := by
  rw [List.length_eq_countP_add_countP p, Nat.add_left_cancel_iff]
  exact List.countP_congr fun v _ => by rw [h, decide_eq_true_eq]

/-- From a value on there are all positions from its own to the last. -/
theorem AtPosition.le_countP_ge (h : AtPosition values position value) :
    values.length - position + 1 ≤ values.countP (value ≤ ·) := by
  have hall : values.countP (· < value) + values.countP (value ≤ ·) = values.length :=
    countP_add_countP_of_not fun v => by
      rw [decide_eq_true_eq, decide_eq_true_eq]
      exact Int.not_lt.symm
  have hbelow := h.below_lt
  have hposition := h.position_le_length
  omega

/-- Above a value there are positions later than its own only. -/
theorem AtPosition.countP_gt_le (h : AtPosition values position value) :
    values.countP (value < ·) ≤ values.length - position := by
  have hall : values.countP (· ≤ value) + values.countP (value < ·) = values.length :=
    countP_add_countP_of_not fun v => by
      rw [decide_eq_true_eq, decide_eq_true_eq]
      exact Int.not_le.symm
  have hupTo := h.le_upTo
  omega

/-- Nothing is below the first position. -/
theorem AtPosition.first_le (h : AtPosition values 1 value) (hb : b ∈ values) :
    value.value ≤ b.value := by
  have hnone : values.countP (· < value) = 0 := Nat.lt_one_iff.mp h.below_lt
  have hb' := List.countP_eq_zero.mp hnone b hb
  rw [decide_eq_true_eq, lt_iff_value_lt] at hb'
  exact not_lt.mp hb'

/-- Nothing is above the last position. -/
theorem AtPosition.le_last (h : AtPosition values values.length value) (hb : b ∈ values) :
    b.value ≤ value.value := by
  have hall : values.countP (· ≤ value) = values.length :=
    le_antisymm List.countP_le_length h.le_upTo
  have hb' := List.countP_eq_length.mp hall b hb
  rwa [decide_eq_true_eq, le_iff_value_le] at hb'

/-! ### Positions of a sorted list -/

theorem atPosition_of_pairwise (h : values.Pairwise (· ≤ ·)) (hindex : index < values.length) :
    AtPosition values (index + 1) values[index] := by
  have hordered : ∀ i j (hi : i < values.length) (hj : j < values.length), i ≤ j →
      values[i] ≤ values[j] := by
    intro i j hi hj hle
    rcases hle.eq_or_lt with rfl | hless
    · exact le_iff_value_le.mpr le_rfl
    · exact List.pairwise_iff_getElem.mp h i j hi hj hless
  have hparts : ∀ count (p : Decimal → Bool), values.countP p =
      (values.take count).countP p + (values.drop count).countP p := by
    intro count p
    rw [← List.countP_append, List.take_append_drop]
  refine ⟨List.getElem_mem hindex, ?_, ?_⟩
  · -- Those below all stand before it.
    have hrest : (values.drop index).countP (· < values[index]) = 0 := by
      refine List.countP_eq_zero.mpr fun v hv => ?_
      obtain ⟨j, hj, rfl⟩ := List.mem_drop_iff_getElem.mp hv
      rw [decide_eq_true_eq]
      exact Int.not_lt.mpr (hordered index _ hindex _ (Nat.le_add_right index j))
    have hsplit := hparts index (· < values[index])
    rw [hrest] at hsplit
    have hfirst : (values.take index).countP (· < values[index]) ≤ index :=
      List.countP_le_length.trans (List.length_take_le _ _)
    omega
  · -- Those before it and itself are not above it.
    have hfirst : (values.take (index + 1)).countP (· ≤ values[index]) = index + 1 := by
      rw [List.countP_eq_length.mpr, List.length_take_of_le hindex]
      intro v hv
      obtain ⟨j, hj, rfl⟩ := List.mem_take_iff_getElem.mp hv
      exact decide_eq_true (hordered j index _ hindex (by omega))
    have hsplit := hparts (index + 1) (· ≤ values[index])
    rw [hfirst] at hsplit
    omega

theorem sorted_perm (series : Series) : series.sorted.Perm series.values :=
  List.mergeSort_perm _ _

@[simp]
theorem length_values (series : Series) : series.values.length = series.samples.length :=
  List.length_map _

@[simp]
theorem length_sorted (series : Series) : series.sorted.length = series.samples.length := by
  rw [(sorted_perm series).length_eq, length_values]

theorem pairwise_sorted (series : Series) : series.sorted.Pairwise (· ≤ ·) := by
  have hsorted : series.sorted.Pairwise fun a b => decide (a ≤ b) = true := by
    refine List.pairwise_mergeSort ?_ ?_ series.values
    · intro a b c hab hbc
      exact decide_eq_true (Decimal.le_trans (of_decide_eq_true hab) (of_decide_eq_true hbc))
    · intro a b
      simpa using Decimal.le_total a b
  exact hsorted.imp of_decide_eq_true

/-- The sorted values stand at their positions. -/
theorem atPosition_sorted (series : Series) (index : Nat)
    (hindex : index < series.samples.length) :
    AtPosition series.values (index + 1) (series.sorted.getD index Decimal.zero) := by
  have hindex' : index < series.sorted.length := by rwa [length_sorted]
  rw [List.getD_eq_getElem?_getD, List.getElem?_eq_getElem hindex', Option.getD_some]
  exact (atPosition_of_pairwise (pairwise_sorted series) hindex').perm (sorted_perm series)

/-! ### Extreme values -/

/-- What is least at either end: the value itself, or its opposite. -/
def Extremum.key (which : Extremum) (x : ℚ) : ℚ :=
  match which with
  | .least => x
  | .greatest => -x

theorem Extremum.prefers_iff (which : Extremum) (candidate best : Decimal) :
    which.prefers candidate best = true ↔ which.key candidate.value < which.key best.value := by
  cases which
  · rw [prefers, decide_eq_true_eq, lt_iff_value_lt, key, key]
  · rw [prefers, decide_eq_true_eq, lt_iff_value_lt, key, key, neg_lt_neg_iff]

/-- The earliest of the samples nearest to one end: all before it are further away, and none
after it is nearer. -/
def Earliest (which : Extremum) (samples : List Sample) (best : Sample) : Prop :=
  ∃ before after, samples = before ++ best :: after ∧
    (∀ sample ∈ before, which.key best.value.value < which.key sample.value.value) ∧
    ∀ sample ∈ after, which.key best.value.value ≤ which.key sample.value.value

theorem Earliest.mem (h : Earliest which samples best) : best ∈ samples := by
  obtain ⟨before, after, rfl, -, -⟩ := h
  exact List.mem_append_right before List.mem_cons_self

theorem Earliest.key_le (h : Earliest which samples best) (hmem : sample ∈ samples) :
    which.key best.value.value ≤ which.key sample.value.value := by
  obtain ⟨before, after, rfl, hbefore, hafter⟩ := h
  rcases List.mem_append.mp hmem with hmem | hmem
  · exact (hbefore sample hmem).le
  · rcases List.mem_cons.mp hmem with rfl | hmem
    · exact le_rfl
    · exact hafter sample hmem

/-- The later of two such samples would have to be strictly nearer to the end than the
earlier one, and is not. -/
theorem Earliest.unique (h : Earliest which samples best) (h' : Earliest which samples sample) :
    best = sample := by
  obtain ⟨before, after, rfl, hbefore, hafter⟩ := h
  obtain ⟨before', after', hsame, hbefore', hafter'⟩ := h'
  rcases List.append_eq_append_iff.mp hsame with
    ⟨between, hlonger, hrest⟩ | ⟨between, hlonger, hrest⟩
  · cases between with
    | nil => exact (List.cons.inj hrest).1
    | cons head tail =>
      obtain ⟨rfl, rfl⟩ := List.cons.inj hrest
      have hless := hbefore' best (by simp [hlonger])
      exact absurd (hafter sample (by simp)) (not_le.mpr hless)
  · cases between with
    | nil => exact (List.cons.inj hrest).1.symm
    | cons head tail =>
      obtain ⟨rfl, rfl⟩ := List.cons.inj hrest
      have hless := hbefore sample (by simp [hlonger])
      exact absurd (hafter' best (by simp)) (not_le.mpr hless)

/-- One more sample takes the place of the best one only if it is strictly nearer. -/
theorem Earliest.step (h : Earliest which samples best) (candidate : Sample) :
    Earliest which (samples ++ [candidate])
      (if which.prefers candidate.value best.value then candidate else best) := by
  split
  · rename_i hnearer
    have hless := (which.prefers_iff _ _).mp hnearer
    refine ⟨samples, [], rfl, fun sample hsample => hless.trans_le (h.key_le hsample), ?_⟩
    exact fun sample hsample => absurd hsample List.not_mem_nil
  · rename_i hnot
    have hle := not_lt.mp (mt (which.prefers_iff _ _).mpr hnot)
    obtain ⟨before, after, rfl, hbefore, hafter⟩ := h
    refine ⟨before, after ++ [candidate], by simp, hbefore, fun sample hsample => ?_⟩
    rcases List.mem_append.mp hsample with hsample | hsample
    · exact hafter sample hsample
    · exact List.mem_singleton.mp hsample ▸ hle

theorem Earliest.foldl (h : Earliest which samples best) (rest : List Sample) :
    Earliest which (samples ++ rest) (rest.foldl (fun best candidate =>
      if which.prefers candidate.value best.value then candidate else best) best) := by
  induction rest generalizing samples best with
  | nil => rwa [List.append_nil]
  | cons candidate rest ih =>
    have hrun := ih (h.step candidate)
    rwa [List.append_assoc] at hrun

theorem earliest_of_extremum? (h : extremum? which samples = some best) :
    Earliest which samples best := by
  cases samples with
  | nil => cases h
  | cons first rest =>
    obtain rfl := Option.some.inj h
    have hfirst : Earliest which [first] first := ⟨[], [], rfl, by simp, by simp⟩
    exact hfirst.foldl rest

theorem exists_extremum? (which : Extremum) (hnonempty : samples ≠ []) :
    ∃ best, extremum? which samples = some best := by
  obtain ⟨first, rest, rfl⟩ := List.exists_cons_of_ne_nil hnonempty
  exact ⟨_, rfl⟩

/-- A window that is not empty has an extreme value, and it is one of its values. -/
theorem exists_extremeValue (which : Extremum) (function : String) (arguments : List Decimal)
    (hnonempty : series.samples ≠ []) :
    ∃ extreme, extremeValue which function series arguments = .ok extreme ∧
      extreme ∈ series.values ∧
      ∀ value ∈ series.values, which.key extreme.value ≤ which.key value.value := by
  obtain ⟨best, hbest⟩ := exists_extremum? which hnonempty
  have hearliest := earliest_of_extremum? hbest
  refine ⟨best.value, ?_, List.mem_map_of_mem hearliest.mem, ?_⟩
  · rw [extremeValue, hbest]
  · intro value hvalue
    obtain ⟨sample, hsample, rfl⟩ := List.mem_map.mp hvalue
    exact hearliest.key_le hsample

theorem exists_minimum (arguments : List Decimal) (hnonempty : series.samples ≠ []) :
    ∃ least, minimum series arguments = .ok least ∧ least ∈ series.values ∧
      ∀ value ∈ series.values, least.value ≤ value.value :=
  exists_extremeValue .least "minTime" arguments hnonempty

theorem exists_maximum (arguments : List Decimal) (hnonempty : series.samples ≠ []) :
    ∃ greatest, maximum series arguments = .ok greatest ∧ greatest ∈ series.values ∧
      ∀ value ∈ series.values, value.value ≤ greatest.value := by
  obtain ⟨greatest, hgreatest, hmem, hall⟩ :=
    exists_extremeValue .greatest "maxTime" arguments hnonempty
  exact ⟨greatest, hgreatest, hmem, fun value hvalue => neg_le_neg_iff.mp (hall value hvalue)⟩

/-- A series of these values, a minute apart from each other. -/
def eachMinute (values : List Decimal) : Series :=
  ⟨values.mapIdx fun minute value => ⟨⟨60 * minute, 0⟩, value⟩, .oneHour, 10⟩

end DerivedTelemetry.Statistics
