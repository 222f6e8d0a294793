import DerivedTelemetry.Store
import Mathlib.Tactic.ByContra

/-!
# Series in the order of time

Halving finds the right place in a series because a series is in order.  This module
proves that for the two searches that a series is asked for, and compares a series that
is kept in order sample by sample with the samples in the order in which they arrived:
it is their stable sort by time, and a window is the stable sort of the samples that
fall into it.
-/

namespace DerivedTelemetry

/-! ### Points in time are ordered -/

theorem Timestamp.le_refl (a : Timestamp) : a ≤ a := (Timestamp.le_total a a).elim id id

theorem Timestamp.le_antisymm {a b : Timestamp} (hab : a ≤ b) (hba : b ≤ a) : a = b := by
  obtain ⟨aSecond, aFraction⟩ := a
  obtain ⟨bSecond, bFraction⟩ := b
  change aSecond < bSecond ∨ aSecond = bSecond ∧ aFraction ≤ bFraction at hab
  change bSecond < aSecond ∨ bSecond = aSecond ∧ bFraction ≤ aFraction at hba
  have hsecond : aSecond = bSecond := by omega
  have hfraction : aFraction = bFraction := by omega
  rw [hsecond, hfraction]

theorem Timestamp.le_of_lt {a b : Timestamp} (h : a < b) : a ≤ b :=
  (Timestamp.le_total a b).resolve_right fun hba => Timestamp.not_le.mpr h hba

theorem Timestamp.lt_of_le_of_lt {a b c : Timestamp} (hab : a ≤ b) (hbc : b < c) : a < c :=
  Timestamp.not_le.mp fun hca => Timestamp.not_le.mpr hbc (Timestamp.le_trans hca hab)

/-! ### Halving -/

/-- The samples that are early come first. -/
def EarlyFirst (early : Sample → Bool) (series : List Sample) : Prop :=
  series.Pairwise fun a b => early b = true → early a = true

theorem EarlyFirst.of_le {early : Sample → Bool} {series : List Sample}
    (h : EarlyFirst early series) {i j : Nat} (hij : i ≤ j) (hj : j < series.length)
    (hearly : early series[j] = true) : early series[i] = true := by
  rcases Nat.lt_or_eq_of_le hij with hlt | rfl
  · exact List.pairwise_iff_getElem.mp h i j (Nat.lt_trans hlt hj) hj hlt hearly
  · exact hearly

/-- What halving finds between two places, the first of which has only early samples
before it and the second none behind it. -/
theorem partitionFrom_spec {early : Sample → Bool} {series : List Sample}
    (h : EarlyFirst early series) {low size : Nat} (hsize : low + size ≤ series.length)
    (hbefore : ∀ i (hi : i < series.length), i < low → early series[i] = true)
    (hbehind : ∀ i (hi : i < series.length), low + size ≤ i → early series[i] = false) :
    partitionFrom early series low size ≤ series.length ∧
      ∀ i (hi : i < series.length),
        early series[i] = true ↔ i < partitionFrom early series low size := by
  fun_induction partitionFrom early series low size with
  | case1 low =>
    refine ⟨by omega, fun i hi => ⟨fun hearly => ?_, hbefore i hi⟩⟩
    by_contra hlow
    have hlate := hbehind i hi (by omega)
    simp [hlate] at hearly
  | case2 low size hpos half sample hsample hearly ih =>
    obtain ⟨hmiddle, rfl⟩ := List.getElem?_eq_some_iff.mp hsample
    have hhalf : half = size / 2 := rfl
    apply ih (by omega)
    · intro i hi hlt
      exact h.of_le (by omega) hmiddle hearly
    · intro i hi hle
      exact hbehind i hi (by omega)
  | case3 low size hpos half sample hsample hlate ih =>
    obtain ⟨hmiddle, rfl⟩ := List.getElem?_eq_some_iff.mp hsample
    have hhalf : half = size / 2 := rfl
    apply ih (by omega) hbefore
    intro i hi hle
    by_contra hearly
    exact hlate (h.of_le hle hi (by simpa using hearly))
  | case4 low size hpos half hnone =>
    have hhalf : half = size / 2 := rfl
    have := List.getElem?_eq_none_iff.mp hnone
    omega

theorem partitionPoint_spec {early : Sample → Bool} {series : List Sample}
    (h : EarlyFirst early series) :
    partitionPoint early series ≤ series.length ∧
      ∀ i (hi : i < series.length),
        early series[i] = true ↔ i < partitionPoint early series := by
  apply partitionFrom_spec h (by omega)
  · intro i hi hlt
    omega
  · intro i hi hle
    omega

theorem early_of_mem_take {early : Sample → Bool} {series : List Sample}
    (h : EarlyFirst early series) {sample : Sample}
    (hmem : sample ∈ series.take (partitionPoint early series)) : early sample = true := by
  obtain ⟨i, hi, rfl⟩ := List.mem_take_iff_getElem.mp hmem
  exact ((partitionPoint_spec h).2 i (by omega)).mpr (by omega)

theorem late_of_mem_drop {early : Sample → Bool} {series : List Sample}
    (h : EarlyFirst early series) {sample : Sample}
    (hmem : sample ∈ series.drop (partitionPoint early series)) : early sample = false := by
  obtain ⟨i, hi, rfl⟩ := List.mem_drop_iff_getElem.mp hmem
  rw [← Bool.not_eq_true]
  intro hearly
  have := ((partitionPoint_spec h).2 _ (by omega)).mp hearly
  omega

/-! ### Series in order -/

/-- Whether a sample may stand before another one. -/
def inOrder (a b : Sample) : Bool := decide (a.timestamp ≤ b.timestamp)

/-- Samples in the order of time, those of one time in the order in which they arrived. -/
def chronological (arrivals : List Sample) : List Sample := arrivals.mergeSort inOrder

/-- No sample is later than one behind it. -/
def Ordered (series : List Sample) : Prop :=
  series.Pairwise fun a b => a.timestamp ≤ b.timestamp

theorem Ordered.earlyFirst {series : List Sample} (h : Ordered series) {early : Sample → Bool}
    (hearly : ∀ a b, a.timestamp ≤ b.timestamp → early b = true → early a = true) :
    EarlyFirst early series :=
  h.imp fun {a b} hab => hearly a b hab

theorem Ordered.earlyFirst_le {series : List Sample} (h : Ordered series) (time : Timestamp) :
    EarlyFirst (fun sample => decide (sample.timestamp ≤ time)) series := by
  apply h.earlyFirst
  intro a b hab hb
  exact decide_eq_true (Timestamp.le_trans hab (of_decide_eq_true hb))

theorem Ordered.earlyFirst_lt {series : List Sample} (h : Ordered series) (time : Timestamp) :
    EarlyFirst (fun sample => decide (sample.timestamp < time)) series := by
  apply h.earlyFirst
  intro a b hab hb
  exact decide_eq_true (Timestamp.lt_of_le_of_lt hab (of_decide_eq_true hb))

theorem inOrder_trans (a b c : Sample) (hab : inOrder a b = true) (hbc : inOrder b c = true) :
    inOrder a c = true :=
  decide_eq_true (Timestamp.le_trans (of_decide_eq_true hab) (of_decide_eq_true hbc))

theorem inOrder_total (a b : Sample) : (inOrder a b || inOrder b a) = true := by
  simpa [inOrder] using Timestamp.le_total a.timestamp b.timestamp

theorem ordered_chronological (arrivals : List Sample) : Ordered (chronological arrivals) :=
  (List.pairwise_mergeSort inOrder_trans inOrder_total arrivals).imp of_decide_eq_true

/-- The samples of one point in time, in their order. -/
def atTime (time : Timestamp) (series : List Sample) : List Sample :=
  series.filter fun sample => decide (sample.timestamp = time)

@[simp]
theorem mem_atTime {time : Timestamp} {series : List Sample} {sample : Sample} :
    sample ∈ atTime time series ↔ sample ∈ series ∧ sample.timestamp = time := by
  simp [atTime]

theorem atTime_append (time : Timestamp) (front back : List Sample) :
    atTime time (front ++ back) = atTime time front ++ atTime time back :=
  List.filter_append ..

theorem atTime_cons (time : Timestamp) (sample : Sample) (series : List Sample) :
    atTime time (sample :: series) =
      if sample.timestamp = time then sample :: atTime time series else atTime time series := by
  simp [atTime, List.filter_cons]

theorem atTime_filter (time : Timestamp) (keep : Sample → Bool) (series : List Sample) :
    atTime time (series.filter keep) = (atTime time series).filter keep := by
  simp only [atTime, List.filter_filter, Bool.and_comm]

/-- Sorting does not disturb the samples of one time among themselves. -/
theorem atTime_chronological (time : Timestamp) (arrivals : List Sample) :
    atTime time (chronological arrivals) = atTime time arrivals := by
  have hequal : (atTime time arrivals).Pairwise fun a b => inOrder a b = true := by
    rw [List.pairwise_iff_forall_sublist]
    intro a b hsublist
    have ha : a ∈ atTime time arrivals := hsublist.subset (by simp)
    have hb : b ∈ atTime time arrivals := hsublist.subset (by simp)
    rw [inOrder, (mem_atTime.mp ha).2, (mem_atTime.mp hb).2]
    exact decide_eq_true (Timestamp.le_refl time)
  have hsublist : (atTime time arrivals).Sublist (chronological arrivals) :=
    List.sublist_mergeSort inOrder_trans inOrder_total hequal List.filter_sublist
  have hinside : (atTime time arrivals).Sublist (atTime time (chronological arrivals)) := by
    have := hsublist.filter fun sample => decide (sample.timestamp = time)
    simpa only [atTime, List.filter_filter, Bool.and_self] using this
  have hlength : (atTime time arrivals).length = (atTime time (chronological arrivals)).length :=
    ((List.mergeSort_perm arrivals inOrder).filter _).length_eq.symm
  exact (hinside.eq_of_length hlength).symm

/-- A series in order is determined by the samples of each point in time. -/
theorem Ordered.eq_of_atTime {left right : List Sample} (hleft : Ordered left)
    (hright : Ordered right) (h : ∀ time, atTime time left = atTime time right) :
    left = right := by
  induction left generalizing right with
  | nil =>
    cases right with
    | nil => rfl
    | cons b right =>
      have := h b.timestamp
      simp [atTime] at this
  | cons a left ih =>
    cases right with
    | nil =>
      have := h a.timestamp
      simp [atTime] at this
    | cons b right =>
      -- The first sample of either series is among the samples of the other.
      have ha : a ∈ atTime a.timestamp (b :: right) := by
        rw [← h a.timestamp]
        simp
      have hb : b ∈ atTime b.timestamp (a :: left) := by
        rw [h b.timestamp]
        simp
      have htime : a.timestamp = b.timestamp := by
        apply Timestamp.le_antisymm
        · rcases List.mem_cons.mp (mem_atTime.mp hb).1 with rfl | hmem
          · exact Timestamp.le_refl _
          · exact List.rel_of_pairwise_cons hleft hmem
        · rcases List.mem_cons.mp (mem_atTime.mp ha).1 with rfl | hmem
          · exact Timestamp.le_refl _
          · exact List.rel_of_pairwise_cons hright hmem
      have hsame : a = b := by
        have := h a.timestamp
        rw [atTime_cons, atTime_cons, if_pos rfl, if_pos htime.symm] at this
        exact (List.cons.inj this).1
      subst hsame
      rw [ih hleft.of_cons hright.of_cons]
      intro time
      have := h time
      rw [atTime_cons, atTime_cons] at this
      split at this
      · exact (List.cons.inj this).2
      · exact this

theorem eq_chronological {series arrivals : List Sample} (hordered : Ordered series)
    (h : ∀ time, atTime time series = atTime time arrivals) :
    series = chronological arrivals :=
  hordered.eq_of_atTime (ordered_chronological arrivals) fun time =>
    (h time).trans (atTime_chronological time arrivals).symm

/-- Where a new sample goes: nothing before it is later, and all behind it is. -/
theorem insertSample_spec {series : List Sample} (h : Ordered series) (sample : Sample) :
    ∃ front back, series = front ++ back ∧
      insertSample sample series = front ++ sample :: back ∧
      (∀ other ∈ front, other.timestamp ≤ sample.timestamp) ∧
      ∀ other ∈ back, sample.timestamp < other.timestamp := by
  have hearly := h.earlyFirst_le sample.timestamp
  refine ⟨_, _, (List.take_append_drop _ series).symm, rfl, ?_, ?_⟩
  · intro other hmem
    exact of_decide_eq_true (early_of_mem_take hearly hmem)
  · intro other hmem
    exact Timestamp.not_le.mp (of_decide_eq_false (late_of_mem_drop hearly hmem))

theorem ordered_insertSample {series : List Sample} (h : Ordered series) (sample : Sample) :
    Ordered (insertSample sample series) := by
  obtain ⟨front, back, rfl, hinsert, hfront, hback⟩ := insertSample_spec h sample
  obtain ⟨hfrontOrdered, hbackOrdered, -⟩ := List.pairwise_append.mp h
  rw [hinsert]
  refine List.pairwise_append.mpr ⟨hfrontOrdered, List.pairwise_cons.mpr ⟨?_, hbackOrdered⟩, ?_⟩
  · intro other hmem
    exact Timestamp.le_of_lt (hback other hmem)
  · intro earlier hearlier other hother
    rcases List.mem_cons.mp hother with rfl | hlater
    · exact hfront earlier hearlier
    · exact Timestamp.le_trans (hfront earlier hearlier) (Timestamp.le_of_lt (hback other hlater))

/-- Among the samples of its time a new sample is the last. -/
theorem atTime_insertSample {series : List Sample} (h : Ordered series) (sample : Sample)
    (time : Timestamp) :
    atTime time (insertSample sample series) = atTime time (series ++ [sample]) := by
  obtain ⟨front, back, rfl, hinsert, -, hback⟩ := insertSample_spec h sample
  rw [hinsert]
  simp only [atTime_append, atTime_cons]
  split
  · rename_i hsame
    have hnone : atTime time back = [] := by
      rw [List.eq_nil_iff_forall_not_mem]
      intro other hmem
      obtain ⟨hother, htime⟩ := mem_atTime.mp hmem
      have hlater := hback other hother
      rw [hsame, htime] at hlater
      exact Timestamp.not_le.mpr hlater (Timestamp.le_refl time)
    rw [hnone]
    simp [atTime]
  · simp [atTime]

/-- A new sample goes where a stable sort puts the last arrival. -/
theorem insertSample_chronological (sample : Sample) (arrivals : List Sample) :
    insertSample sample (chronological arrivals) = chronological (arrivals ++ [sample]) := by
  have hordered := ordered_chronological arrivals
  apply eq_chronological (ordered_insertSample hordered sample)
  intro time
  calc
    atTime time (insertSample sample (chronological arrivals)) =
        atTime time (chronological arrivals) ++ atTime time [sample] := by
      rw [atTime_insertSample hordered, atTime_append]
    _ = atTime time (arrivals ++ [sample]) := by
      rw [atTime_chronological, atTime_append]

theorem filter_chronological (keep : Sample → Bool) (arrivals : List Sample) :
    (chronological arrivals).filter keep = chronological (arrivals.filter keep) := by
  apply eq_chronological
  · exact (ordered_chronological arrivals).sublist List.filter_sublist
  · intro time
    rw [atTime_filter, atTime_filter, atTime_chronological]

/-- Whether a sample lies between two times, both included. -/
def between (start stop : Timestamp) (sample : Sample) : Bool :=
  decide (start ≤ sample.timestamp ∧ sample.timestamp ≤ stop)

/-- A stretch holds the samples between its ends and no other, also where it ends
before it begins. -/
theorem stretch_eq_filter {series : List Sample} (h : Ordered series)
    (start stop : Timestamp) :
    stretch start stop series = series.filter (between start stop) := by
  have hlt := h.earlyFirst_lt start
  have hle := h.earlyFirst_le stop
  rw [stretch]
  generalize hfirst : partitionPoint (fun sample => decide (sample.timestamp < start)) series =
    first
  generalize hpast : partitionPoint (fun sample => decide (sample.timestamp ≤ stop)) series =
    past
  have hbefore : (series.take first).filter (between start stop) = [] := by
    rw [List.filter_eq_nil_iff]
    intro sample hmem hbetween
    have hearly := of_decide_eq_true (early_of_mem_take hlt (hfirst ▸ hmem))
    exact Timestamp.not_le.mpr hearly (of_decide_eq_true hbetween).1
  have hbehind : (series.drop past).filter (between start stop) = [] := by
    rw [List.filter_eq_nil_iff]
    intro sample hmem hbetween
    have hlate := of_decide_eq_false (late_of_mem_drop hle (hpast ▸ hmem))
    exact hlate (of_decide_eq_true hbetween).2
  split
  · -- Every sample lies before the first place or behind the last one.
    rename_i hempty
    rw [← List.take_append_drop first series, List.filter_append, hbefore, List.nil_append]
    symm
    rw [List.filter_eq_nil_iff] at hbehind ⊢
    intro sample hmem
    exact hbehind sample (List.drop_subset_drop_left series hempty hmem)
  · rename_i hnonempty
    have hinside : ((series.take past).drop first).filter (between start stop) =
        (series.take past).drop first := by
      rw [List.filter_eq_self]
      intro sample hmem
      have hstop := early_of_mem_take hle (hpast ▸ List.mem_of_mem_drop hmem)
      have hstart := late_of_mem_drop hlt
        (hfirst ▸ ((List.take_sublist past series).drop first).subset hmem)
      exact decide_eq_true
        ⟨not_not.mp fun hn => of_decide_eq_false hstart (Timestamp.not_le.mp hn),
          of_decide_eq_true hstop⟩
    have htake : (series.take past).take first = series.take first := by
      rw [List.take_take, Nat.min_eq_left (by omega)]
    calc
      (series.take past).drop first =
          ((series.take past).drop first).filter (between start stop) := hinside.symm
      _ = (series.take past).filter (between start stop) := by
        conv_rhs => rw [← List.take_append_drop first (series.take past)]
        rw [List.filter_append, htake, hbefore, List.nil_append]
      _ = series.filter (between start stop) := by
        conv_rhs => rw [← List.take_append_drop past series]
        rw [List.filter_append, hbehind, List.append_nil]

end DerivedTelemetry
