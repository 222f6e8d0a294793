import DerivedTelemetry.Proofs.Medians
import Mathlib.Data.Rat.Floor

/-!
# Percentiles

The percentile of a rank is the value at its nearest position.  The position comes out of a
product and a quotient of decimals.  While both are representable it is the exact one: the
least position up to which there is the wanted share of the values.

For other ranks it is worked out from rounded numbers, which could put it one further on or
back.  But both roundings keep the order, and so does every step after them.  So a greater
rank never has a lesser percentile, and all percentiles lie between the extreme values of the
window, which are those of rank zero and of rank one hundred.
-/

namespace DerivedTelemetry.Decimal

variable {number : Decimal}

/-- A fraction that is dropped leaves one to be added. -/
theorem natCeil_add {whole : Nat} {rest : ℚ} (hpos : 0 < rest) (hless : rest < 1) :
    ⌈(whole : ℚ) + rest⌉₊ = whole + 1 := by
  have hone : ⌈rest⌉₊ = 1 := by
    rw [Nat.ceil_eq_iff one_ne_zero, Nat.sub_self, Nat.cast_zero, Nat.cast_one]
    exact ⟨hpos, hless.le⟩
  rw [add_comm, Nat.ceil_add_natCast hpos.le, hone, Nat.add_comm]

/-- A number that is not below zero has the value of its mantissa. -/
theorem value_of_nonneg (h : 0 ≤ number.value) :
    number.value = number.mantissa / (tenTo number.scale : Nat) := by
  rw [cast_tenTo, ← abs_value, abs_of_nonneg h]

theorem not_negative_of_nonneg (h : 0 ≤ number.value) (hpos : 0 < number.mantissa) :
    number.negative = false := by
  by_contra hnegative
  have hbelow : number.value = -(number.mantissa / 10 ^ number.scale) := by
    rw [value_eq, signFactor, if_pos (by simpa using hnegative), neg_one_mul]
  have hmagnitude : (0 : ℚ) < number.mantissa / 10 ^ number.scale := by positivity
  linarith

/-- Going up to a whole number is rounding the value up, if it is not below zero. -/
theorem mantissa_ceil (h : 0 ≤ number.value) : number.ceil.mantissa = ⌈number.value⌉₊ := by
  have hunit := tenTo_pos number.scale
  rw [value_of_nonneg h, div_eq_quotient_add_rest _ hunit, ceil]
  cases hfraction : number.hasFraction
  · have hrest : number.mantissa % tenTo number.scale = 0 := by
      simpa [hasFraction] using hfraction
    rw [Bool.false_and, if_neg Bool.false_ne_true, truncate, hrest, Nat.cast_zero, zero_div,
      add_zero, Nat.ceil_natCast]
  · have hrest : 0 < number.mantissa % tenTo number.scale :=
      Nat.pos_of_ne_zero (bne_iff_ne.mp hfraction)
    have hsign := not_negative_of_nonneg h (Nat.lt_of_lt_of_le hrest (Nat.mod_le _ _))
    rw [hsign, Bool.not_false, Bool.and_true, if_pos rfl, awayFromZero, truncate,
      natCeil_add (by positivity) (rest_lt_one _ hunit)]

end DerivedTelemetry.Decimal

namespace DerivedTelemetry.Statistics

open Decimal

variable {series : Series} {rank p q : Decimal} {count position : Nat}

/-! ### Positions of ranks -/

/-- The position of the nearest rank: the least one up to which there is the wanted share of
so many values, in percent, and the first one for no share at all. -/
def nearestRank (rank : ℚ) (count : Nat) : Nat := max 1 ⌈rank * count / 100⌉₊

@[simp]
theorem value_hundred : hundred.value = 100 := by
  rw [hundred, value_ofNat]
  norm_num

theorem hundred_ne_zero : ¬hundred.isZero = true := by decide

theorem rankPosition_of_share {product share : Decimal}
    (hproduct : rank.mul? (ofNat count) = some product) (hshare : product.div? hundred = some share)
    (hnonneg : 0 ≤ share.value) : rankPosition rank (ofNat count) = .ok ⌈share.value⌉₊ := by
  rw [rankPosition, Checked.mul, hproduct]
  dsimp only [Checked.orFault, bind, Except.bind]
  rw [hshare, ← mantissa_ceil hnonneg]
  rfl

/-- Where the product and the quotient are representable the position is exact. -/
theorem rankPosition_exact (hlow : 0 ≤ rank.value) (hproduct : Representable (rank.value * count))
    (hshare : Representable (rank.value * count / 100)) :
    rankPosition rank (ofNat count) = .ok ⌈rank.value * count / 100⌉₊ := by
  rw [← value_ofNat count] at hproduct
  obtain ⟨product, hcomputed, hexact⟩ := exists_mul? hproduct
  rw [value_ofNat] at hexact
  rw [← hexact, ← value_hundred] at hshare
  obtain ⟨share, hcomputed', hexact'⟩ := exists_div? hundred_ne_zero hshare
  rw [value_hundred, hexact] at hexact'
  rw [rankPosition_of_share hcomputed hcomputed' (hexact' ▸ by positivity), hexact']

/-- Multiplying by a count and moving the point are exact on the mantissa. -/
theorem rank_mul_count_div (rank : Decimal) (count places : Nat) :
    rank.value * count / 10 ^ places =
      value ⟨rank.negative, rank.mantissa * count, rank.scale + places⟩ := by
  rw [value_eq rank, value_eq ⟨rank.negative, rank.mantissa * count, rank.scale + places⟩, pow_add]
  push_cast
  ring

/-- A rank that has the value of one of few digits has its exact position. -/
theorem rankPosition_of_few_digits {short : Decimal} (hvalue : rank.value = short.value)
    (hlow : 0 ≤ rank.value) (hscale : short.scale ≤ 26)
    (hdigits : short.mantissa * count < capacity) :
    rankPosition rank (ofNat count) = .ok ⌈rank.value * count / 100⌉₊ := by
  have hrepresentable : ∀ places ≤ 2, Representable (rank.value * count / 10 ^ places) := by
    intro places hplaces
    have hplaces' : short.scale + places ≤ maxScale := Nat.add_le_add hscale hplaces
    rw [hvalue, rank_mul_count_div]
    exact ⟨_, ⟨hdigits, hplaces'⟩, rfl⟩
  refine rankPosition_exact hlow ?_ ?_
  · simpa using hrepresentable 0 (Nat.zero_le 2)
  · have hhundred : (10 : ℚ) ^ 2 = 100 := by norm_num
    exact hhundred ▸ hrepresentable 2 le_rfl

/-- The values of a window are counted in one machine word. -/
def lengthCapacity : Nat := twoTo 64

/-- A hundred times such a count is no greater than the greatest decimal. -/
theorem rank_mul_count_le (hlow : 0 ≤ rank.value) (hhigh : rank.value ≤ 100)
    (hcount : count < lengthCapacity) : |rank.value * count| ≤ capacity - 1 := by
  have hcount' : (count : ℚ) ≤ lengthCapacity := by exact_mod_cast hcount.le
  rw [abs_of_nonneg (by positivity)]
  calc
    rank.value * count ≤ 100 * lengthCapacity := by gcongr
    _ ≤ capacity - 1 := by norm_num [lengthCapacity, capacity, twoTo]

/-- Whole ranks have exact positions among so many values. -/
theorem rankPosition_of_whole {whole : Nat} (hvalue : rank.value = whole) (hwhole : whole ≤ 100)
    (hcount : count < lengthCapacity) :
    rankPosition rank (ofNat count) = .ok ⌈(whole * count : ℚ) / 100⌉₊ := by
  have hdigits : whole * count < capacity := by
    calc
      whole * count ≤ 100 * lengthCapacity := Nat.mul_le_mul hwhole hcount.le
      _ < capacity := by norm_num [lengthCapacity, capacity, twoTo]
  rw [← hvalue]
  exact rankPosition_of_few_digits (hvalue.trans (value_ofNat whole).symm)
    (hvalue ▸ Nat.cast_nonneg whole) (Nat.zero_le 26) hdigits

theorem rankPosition_zero (hvalue : rank.value = 0) (hcount : count < lengthCapacity) :
    rankPosition rank (ofNat count) = .ok 0 := by
  rw [rankPosition_of_whole (hvalue.trans Nat.cast_zero.symm) (Nat.zero_le 100) hcount,
    Nat.cast_zero, zero_mul, zero_div, Nat.ceil_zero]

theorem rankPosition_hundred (hvalue : rank.value = 100) (hcount : count < lengthCapacity) :
    rankPosition rank (ofNat count) = .ok count := by
  rw [rankPosition_of_whole (by exact_mod_cast hvalue : rank.value = (100 : Nat)) le_rfl hcount]
  push_cast
  rw [mul_div_cancel_left₀ _ (by norm_num), Nat.ceil_natCast]

theorem rankPosition_fifty (hvalue : rank.value = 50) (hcount : count < lengthCapacity) :
    rankPosition rank (ofNat count) = .ok ((count + 1) / 2) := by
  rw [rankPosition_of_whole (by exact_mod_cast hvalue : rank.value = (50 : Nat)) (by norm_num)
    hcount]
  congr 1
  rcases Nat.even_or_odd' count with ⟨half, rfl | rfl⟩
  · have hshare : (((50 : Nat) : ℚ) * (2 * half : Nat)) / 100 = half := by
      push_cast
      ring
    rw [hshare, Nat.ceil_natCast]
    omega
  · have hshare : (((50 : Nat) : ℚ) * (2 * half + 1 : Nat)) / 100 = half + 1 / 2 := by
      push_cast
      ring
    rw [hshare, natCeil_add (by norm_num) (by norm_num)]
    omega

/-- Every rank has a position, found by way of the nearest decimals. -/
theorem exists_rankPosition (hrank : rank.WellFormed) (hlow : 0 ≤ rank.value)
    (hhigh : rank.value ≤ 100) (hcount : count < lengthCapacity) :
    ∃ product share, Nearest (rank.value * count) product ∧ Nearest (product.value / 100) share ∧
      rankPosition rank (ofNat count) = .ok ⌈share.value⌉₊ := by
  have hplaces : rank.scale + (ofNat count).scale ≤ wordProductScale :=
    Nat.le_trans hrank.scale_le (by decide)
  have hmul := rounds_mul? hplaces
  rw [value_ofNat] at hmul
  obtain ⟨product, hproduct, hnearest⟩ :=
    hmul.exists_of_abs_le (rank_mul_count_le hlow hhigh hcount)
  have hfits : product.WellFormed := wellFormed_of_mul? hproduct
  have hpositive : 0 ≤ product.value := hnearest.nonneg (by positivity)
  have hdiv := rounds_div? hfits hundred_ne_zero
  rw [value_hundred] at hdiv
  have hroom : |product.value / 100| ≤ capacity - 1 := by
    have hless := hfits.abs_value_le
    rw [abs_of_nonneg hpositive] at hless
    rw [abs_of_nonneg (by positivity)]
    linarith
  obtain ⟨share, hshare, hnearest'⟩ := hdiv.exists_of_abs_le hroom
  have hpositive' : 0 ≤ share.value := hnearest'.nonneg (by positivity)
  exact ⟨product, share, hnearest, hnearest', rankPosition_of_share hproduct hshare hpositive'⟩

/-- A greater rank has no lesser position. -/
theorem exists_rankPositions (hp : p.WellFormed) (hq : q.WellFormed) (hlow : 0 ≤ p.value)
    (hle : p.value ≤ q.value) (hhigh : q.value ≤ 100) (hcount : count < lengthCapacity) :
    ∃ lower upper, rankPosition p (ofNat count) = .ok lower ∧
      rankPosition q (ofNat count) = .ok upper ∧ lower ≤ upper := by
  obtain ⟨product, share, hproduct, hshare, hposition⟩ :=
    exists_rankPosition hp hlow (hle.trans hhigh) hcount
  obtain ⟨product', share', hproduct', hshare', hposition'⟩ :=
    exists_rankPosition hq (hlow.trans hle) hhigh hcount
  have hproducts : product.value ≤ product'.value := hproduct.mono hproduct' (by gcongr)
  have hshares : share.value ≤ share'.value := hshare.mono hshare' (by gcongr)
  exact ⟨_, _, hposition, hposition', Nat.ceil_le_ceil hshares⟩

/-! ### Percentiles of a window -/

theorem not_outside (hlow : Decimal.zero ≤ rank) (hhigh : rank ≤ hundred) :
    ¬(rank < Decimal.zero ∨ hundred < rank) :=
  not_or.mpr ⟨Int.not_lt.mpr hlow, Int.not_lt.mpr hhigh⟩

/-- The value that stands at the position of a rank, or else at the first or the last one. -/
theorem percentile_of_rankPosition (hnonempty : series.samples ≠ [])
    (hlow : Decimal.zero ≤ rank) (hhigh : rank ≤ hundred)
    (hposition : rankPosition rank series.count = .ok position) :
    percentile series [rank] = .ok (series.sorted.getD
      (min (position - 1) (series.samples.length - 1)) Decimal.zero) := by
  obtain ⟨ends, hends⟩ := exists_ends hnonempty "percentile"
  rw [percentile]
  dsimp only
  rw [if_neg (not_outside hlow hhigh), hends, hposition, length_sorted]
  rfl

theorem exists_percentile (hnonempty : series.samples ≠ [])
    (hlow : Decimal.zero ≤ rank) (hhigh : rank ≤ hundred)
    (hposition : rankPosition rank series.count = .ok position) :
    ∃ value, percentile series [rank] = .ok value ∧
      AtPosition series.values (max 1 (min position series.samples.length)) value := by
  have hlength : 0 < series.samples.length := List.length_pos_iff.mpr hnonempty
  refine ⟨_, percentile_of_rankPosition hnonempty hlow hhigh hposition, ?_⟩
  have hvalue := atPosition_sorted series
    (min (position - 1) (series.samples.length - 1)) (by omega)
  rwa [show min (position - 1) (series.samples.length - 1) + 1 =
    max 1 (min position series.samples.length) by omega] at hvalue

theorem ceil_share_le {rank : ℚ} (hhigh : rank ≤ 100) (count : Nat) :
    ⌈rank * count / 100⌉₊ ≤ count := by
  refine Nat.ceil_le.mpr ?_
  have hcount : (0 : ℚ) ≤ count := Nat.cast_nonneg count
  rw [div_le_iff₀ (by norm_num), mul_comm]
  gcongr

/-- The percentile of a rank whose product with the number of samples is exact is the value
at the nearest position: that many samples are not above it, and it and all later ones are
not below it.  A rank outside its range and a window without samples are faults. -/
theorem percentile_nearest_rank (series : Series) (rank : Decimal) :
    (series.samples ≠ [] → Decimal.zero ≤ rank → rank ≤ hundred → rank.scale ≤ 26 →
      rank.mantissa * series.samples.length < capacity →
      ∃ value, percentile series [rank] = .ok value ∧
        AtPosition series.values (nearestRank rank.value series.samples.length) value ∧
        series.samples.length - nearestRank rank.value series.samples.length + 1 ≤
          series.values.countP (value ≤ ·)) ∧
    (rank < Decimal.zero ∨ hundred < rank →
      percentile series [rank] = .error (.arithmetic (.rankOutside rank))) ∧
    (series.samples = [] → Decimal.zero ≤ rank → rank ≤ hundred →
      percentile series [rank] = .error (.arithmetic (.noSamples "percentile" series.window))) := by
  refine ⟨fun hnonempty hlow hhigh hscale hdigits => ?_, fun houtside => ?_,
    fun hempty hlow hhigh => ?_⟩
  · have hlow' : 0 ≤ rank.value := value_zero ▸ le_iff_value_le.mp hlow
    have hhigh' : rank.value ≤ 100 := value_hundred ▸ le_iff_value_le.mp hhigh
    obtain ⟨value, hvalue, hposition⟩ := exists_percentile hnonempty hlow hhigh
      (rankPosition_of_few_digits rfl hlow' hscale hdigits)
    rw [min_eq_left (ceil_share_le hhigh' _)] at hposition
    have hlength := length_values series
    exact ⟨value, hvalue, hposition, hlength ▸ hposition.le_countP_ge⟩
  · rw [percentile]
    dsimp only
    rw [if_pos houtside]
    rfl
  · rw [percentile]
    dsimp only
    rw [if_neg (not_outside hlow hhigh), Series.ends, Series.values, hempty]
    rfl

/-- The position of this rank among five values is a little over three, so the fourth value
is its percentile. -/
theorem percentile_nearest_rank_of_five :
    let series := eachMinute [ofNat 3, ⟨false, 15, 1⟩, ofNat 10, ⟨false, 150, 2⟩, ofNat 7]
    let rank : Decimal := ⟨false, 625, 1⟩
    (series.samples ≠ [] ∧ Decimal.zero ≤ rank ∧ rank ≤ hundred ∧ rank.scale ≤ 26 ∧
      rank.mantissa * series.samples.length < capacity) ∧
    nearestRank rank.value series.samples.length = 4 ∧
    (∃ value, percentile series [rank] = .ok value ∧ value.value = 7 ∧
      2 ≤ series.values.countP (value ≤ ·)) ∧
    percentile series [⟨true, 1, 1⟩] = .error (.arithmetic (.rankOutside ⟨true, 1, 1⟩)) ∧
    percentile (eachMinute []) [rank] =
      .error (.arithmetic (.noSamples "percentile" .oneHour)) := by
  intro series rank
  have hpremises : series.samples ≠ [] ∧ Decimal.zero ≤ rank ∧ rank ≤ hundred ∧
      rank.scale ≤ 26 ∧ rank.mantissa * series.samples.length < capacity :=
    ⟨List.cons_ne_nil _ _, by decide +kernel, by decide +kernel, by decide, by decide +kernel⟩
  have hrank : nearestRank rank.value series.samples.length = 4 := by
    have hshare : rank.value * series.samples.length / 100 = 25 / 8 := by
      rw [value_of_positive, show series.samples.length = 5 from rfl]
      norm_num
    have hceil : ⌈(25 / 8 : ℚ)⌉₊ = 4 := (Nat.ceil_eq_iff four_ne_zero).mpr (by norm_num)
    rw [nearestRank, hshare, hceil]
    rfl
  have ⟨hnonempty, hlow, hhigh, hscale, hdigits⟩ := hpremises
  obtain ⟨value, hvalue, hposition, hrest⟩ :=
    (percentile_nearest_rank series rank).1 hnonempty hlow hhigh hscale hdigits
  rw [hrank] at hposition hrest
  have hfourth : AtPosition series.values 4 (ofNat 7) :=
    ⟨by decide +kernel, by decide +kernel, by decide +kernel⟩
  refine ⟨hpremises, hrank, ⟨value, hvalue, ?_, hrest⟩, ?_, ?_⟩
  · exact (hposition.value_eq hfourth).trans (value_ofNat 7)
  · exact (percentile_nearest_rank series _).2.1 (by decide +kernel)
  · exact (percentile_nearest_rank (eachMinute []) rank).2.2 rfl hlow hhigh

/-! ### Percentiles in order -/

/-- Ranks in order have percentiles in order. -/
theorem exists_percentiles (hnonempty : series.samples ≠ [])
    (hlength : series.samples.length < lengthCapacity) (hp : p.WellFormed) (hq : q.WellFormed)
    (hlow : Decimal.zero ≤ p) (hle : p ≤ q) (hhigh : q ≤ hundred) :
    ∃ lower upper, percentile series [p] = .ok lower ∧ percentile series [q] = .ok upper ∧
      lower ∈ series.values ∧ upper ∈ series.values ∧ lower ≤ upper := by
  obtain ⟨position, later, hposition, hlater, hordered⟩ := exists_rankPositions hp hq
    (value_zero ▸ le_iff_value_le.mp hlow) (le_iff_value_le.mp hle)
    (value_hundred ▸ le_iff_value_le.mp hhigh) hlength
  obtain ⟨lower, hlower, hlowerAt⟩ :=
    exists_percentile hnonempty hlow (Decimal.le_trans hle hhigh) hposition
  obtain ⟨upper, hupper, hupperAt⟩ :=
    exists_percentile hnonempty (Decimal.le_trans hlow hle) hhigh hlater
  exact ⟨lower, upper, hlower, hupper, hlowerAt.mem, hupperAt.mem,
    le_iff_value_le.mpr (hlowerAt.value_le hupperAt (by omega))⟩

theorem percentile_zero (hnonempty : series.samples ≠ [])
    (hlength : series.samples.length < lengthCapacity) (hrank : rank.value = 0) :
    ∃ value, percentile series [rank] = .ok value ∧ AtPosition series.values 1 value := by
  obtain ⟨value, hvalue, hposition⟩ := exists_percentile hnonempty
    (le_iff_value_le.mpr (by simp [hrank])) (le_iff_value_le.mpr (by simp [hrank]))
    (rankPosition_zero hrank hlength)
  exact ⟨value, hvalue, hposition⟩

theorem percentile_hundred (hnonempty : series.samples ≠ [])
    (hlength : series.samples.length < lengthCapacity) (hrank : rank.value = 100) :
    ∃ value, percentile series [rank] = .ok value ∧
      AtPosition series.values series.values.length value := by
  obtain ⟨value, hvalue, hposition⟩ := exists_percentile hnonempty
    (le_iff_value_le.mpr (by simp [hrank])) (le_iff_value_le.mpr (by simp [hrank]))
    (rankPosition_hundred hrank hlength)
  have hcount : 0 < series.samples.length := List.length_pos_iff.mpr hnonempty
  rw [min_self, max_eq_right hcount] at hposition
  exact ⟨value, hvalue, by rwa [length_values]⟩

theorem percentile_fifty (hnonempty : series.samples ≠ [])
    (hlength : series.samples.length < lengthCapacity) (hrank : rank.value = 50) :
    percentile series [rank] =
      .ok (series.sorted.getD ((series.samples.length + 1) / 2 - 1) Decimal.zero) := by
  rw [percentile_of_rankPosition hnonempty (le_iff_value_le.mpr (by norm_num [hrank]))
    (le_iff_value_le.mpr (by norm_num [hrank])) (rankPosition_fifty hrank hlength),
    min_eq_left (by omega)]

/-- Percentiles of ranks in order are in order, between the extreme values of the window.
These are the percentiles at both ends of the ranks.  The percentile of fifty is the median of
an odd number of samples, and of an even number it is the lower of the two in the middle. -/
theorem percentiles_between_extremes (arguments : List Decimal) (hnonempty : series.samples ≠ [])
    (hlength : series.samples.length < lengthCapacity) :
    ∃ least greatest, minimum series arguments = .ok least ∧
      maximum series arguments = .ok greatest ∧
      (∀ p q : Decimal, p.WellFormed → q.WellFormed → Decimal.zero ≤ p → p ≤ q → q ≤ hundred →
        ∃ lower upper, percentile series [p] = .ok lower ∧ percentile series [q] = .ok upper ∧
          least ≤ lower ∧ lower ≤ upper ∧ upper ≤ greatest) ∧
      (∀ rank : Decimal, rank.value = 0 →
        ∃ value, percentile series [rank] = .ok value ∧ Same value least) ∧
      (∀ rank : Decimal, rank.value = 100 →
        ∃ value, percentile series [rank] = .ok value ∧ Same value greatest) ∧
      ∀ rank : Decimal, rank.value = 50 →
        (series.samples.length % 2 = 1 → percentile series [rank] = median series arguments) ∧
        (series.samples.length % 2 = 0 → ∃ lower, percentile series [rank] = .ok lower ∧
          AtPosition series.values (series.samples.length / 2) lower) := by
  obtain ⟨least, hleast, hleastMem, hleastLe⟩ := exists_minimum arguments hnonempty
  obtain ⟨greatest, hgreatest, hgreatestMem, hgreatestLe⟩ := exists_maximum arguments hnonempty
  refine ⟨least, greatest, hleast, hgreatest, ?_, ?_, ?_, ?_⟩
  · intro p q hp hq hlow hle hhigh
    obtain ⟨lower, upper, hlower, hupper, hlowerMem, hupperMem, hordered⟩ :=
      exists_percentiles hnonempty hlength hp hq hlow hle hhigh
    exact ⟨lower, upper, hlower, hupper, le_iff_value_le.mpr (hleastLe lower hlowerMem), hordered,
      le_iff_value_le.mpr (hgreatestLe upper hupperMem)⟩
  · intro rank hrank
    obtain ⟨value, hvalue, hfirst⟩ := percentile_zero hnonempty hlength hrank
    exact ⟨value, hvalue, same_iff_value_eq.mpr
      (le_antisymm (hfirst.first_le hleastMem) (hleastLe value hfirst.mem))⟩
  · intro rank hrank
    obtain ⟨value, hvalue, hlast⟩ := percentile_hundred hnonempty hlength hrank
    exact ⟨value, hvalue, same_iff_value_eq.mpr
      (le_antisymm (hgreatestLe value hlast.mem) (hlast.le_last hgreatestMem))⟩
  · intro rank hrank
    rw [percentile_fifty hnonempty hlength hrank]
    refine ⟨fun hodd => ?_, fun heven => ?_⟩
    · rw [median_of_odd arguments hodd, show (series.samples.length + 1) / 2 - 1 =
        series.samples.length / 2 by omega]
    · refine ⟨_, rfl, ?_⟩
      rw [show (series.samples.length + 1) / 2 - 1 = series.samples.length / 2 - 1 by omega]
      exact (atPosition_middle hnonempty heven).1

/-- A third of a hundred, which three times over has more digits than there is room for. -/
theorem percentiles_between_extremes_of_three :
    let series := eachMinute [ofNat 3, ⟨true, 1, 1⟩, ofNat 2]
    let third : Decimal := ⟨false, 33333333333333333333333333333, 27⟩
    (series.samples ≠ [] ∧ series.samples.length < lengthCapacity ∧ third.WellFormed ∧
      hundred.WellFormed ∧ Decimal.zero ≤ third ∧ third ≤ hundred ∧
      capacity ≤ third.mantissa * series.samples.length) ∧
    (∃ lower upper, percentile series [third] = .ok lower ∧
      percentile series [hundred] = .ok upper ∧ ⟨true, 1, 1⟩ ≤ lower ∧ lower ≤ upper ∧
      upper ≤ ofNat 3) ∧
    percentile series [ofNat 50] = median series [] := by
  intro series third
  have hpremises : series.samples ≠ [] ∧ series.samples.length < lengthCapacity ∧
      third.WellFormed ∧ hundred.WellFormed ∧ Decimal.zero ≤ third ∧ third ≤ hundred ∧
      capacity ≤ third.mantissa * series.samples.length := by
    refine ⟨List.cons_ne_nil _ _, ?_⟩
    decide +kernel
  have ⟨hnonempty, hlength, hthird, hhundred, hlow, hhigh, _⟩ := hpremises
  obtain ⟨least, greatest, hleast, hgreatest, hbetween, -, -, hmiddle⟩ :=
    percentiles_between_extremes [] hnonempty hlength
  have hleast' : minimum series [] = .ok ⟨true, 1, 1⟩ := by decide +kernel
  have hgreatest' : maximum series [] = .ok (ofNat 3) := by decide +kernel
  obtain rfl := Except.ok.inj (hleast'.symm.trans hleast)
  obtain rfl := Except.ok.inj (hgreatest'.symm.trans hgreatest)
  exact ⟨hpremises, hbetween third hundred hthird hhundred hlow hhigh (by decide +kernel),
    (hmiddle (ofNat 50) (value_ofNat 50)).1 (by decide +kernel)⟩

end DerivedTelemetry.Statistics
