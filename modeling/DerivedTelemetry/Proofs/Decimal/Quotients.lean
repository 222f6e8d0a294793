import DerivedTelemetry.Decimal.Quotient
import DerivedTelemetry.Proofs.Decimal.Exact
import Mathlib.Algebra.Order.Floor.Ring
import Mathlib.Algebra.Ring.Parity

/-!
# Quotients as nearest decimals

A quotient has the nearest decimal as its value: as many digits after the point as the
bounds allow, the last one rounded, a half to the even neighbour.  That long division stops
early when it comes out even, and takes zeros back afterwards, changes the scale only.

So a quotient that is representable is exact.
-/

namespace DerivedTelemetry.Rounding

/-- A whole number nearest to a fraction, the even one of two. -/
structure IsNearestEven (x : ℚ) (n : ℤ) : Prop where
  near : |x - n| ≤ 1 / 2
  even : |x - n| = 1 / 2 → Even n

/-- The decimal `digits / 10 ^ places` for a fraction: rounded at the last place, up to the
greatest one there is, at which its digits are below the capacity. -/
structure IsNearestDecimal (x : ℚ) (digits : ℤ) (places : Nat) : Prop where
  rounded : IsNearestEven (x * 10 ^ places) digits
  fits : |digits| < Decimal.capacity
  places_le : places ≤ Decimal.maxScale
  widest : ∀ more ≤ Decimal.maxScale, places < more →
    ∀ longer, IsNearestEven (x * 10 ^ more) longer → (Decimal.capacity : ℤ) ≤ |longer|

variable {x : ℚ} {n m digits : ℤ} {places : Nat}

theorem isNearestEven_intCast (n : ℤ) : IsNearestEven n n :=
  ⟨by norm_num, fun h => by norm_num at h⟩

theorem IsNearestEven.neg (h : IsNearestEven x n) : IsNearestEven (-x) (-n) := by
  have hdistance : |-x - (-n : ℤ)| = |x - n| := by
    rw [Int.cast_neg, neg_sub_neg, abs_sub_comm]
  exact ⟨hdistance ▸ h.near, fun hhalf => (h.even (hdistance ▸ hhalf)).neg⟩

/-- Two neighbours are both nearest only half way between them, and one of them is odd. -/
theorem IsNearestEven.unique (hn : IsNearestEven x n) (hm : IsNearestEven x m) : n = m := by
  wlog hle : n ≤ m generalizing n m
  · exact (this hm hn (le_of_not_ge hle)).symm
  by_contra hne
  have hgap : (n : ℚ) + 1 ≤ m := by exact_mod_cast (by omega : n + 1 ≤ m)
  have hbelow := abs_le.mp hn.near
  have habove := abs_le.mp hm.near
  have hneighbour : m = n + 1 := by
    have : (m : ℚ) ≤ n + 1 := by linarith
    have : m ≤ n + 1 := by exact_mod_cast this
    omega
  have hhalf : x = n + 1 / 2 := by
    subst hneighbour
    push_cast at habove
    linarith
  have hodd : Odd m := by
    rw [hneighbour]
    exact (hn.even (by rw [hhalf, add_sub_cancel_left]; norm_num)).add_one
  refine Int.not_even_iff_odd.mpr hodd (hm.even ?_)
  rw [hhalf, hneighbour]
  push_cast
  rw [show (n : ℚ) + 1 / 2 - (n + 1) = -(1 / 2) by ring, abs_neg]
  norm_num

theorem IsNearestEven.eq_of_intCast (h : IsNearestEven n m) : m = n :=
  h.unique (isNearestEven_intCast n)

theorem isNearestEven_of_lt (h : |x - n| < 1 / 2) : IsNearestEven x n :=
  ⟨h.le, fun hhalf => absurd hhalf h.ne⟩

theorem isNearestEven_of_even (h : |x - n| ≤ 1 / 2) (heven : Even n) : IsNearestEven x n :=
  ⟨h, fun _ => heven⟩

/-- The rounded quotient of two numbers is the nearest whole number. -/
theorem isNearestEven_div (a : Nat) {b : Nat} (hb : 0 < b) :
    IsNearestEven ((a : ℚ) / b) (Decimal.divHalfEven a b : Nat) := by
  have hrest := Decimal.rest_lt_one a hb
  have hnonneg : (0 : ℚ) ≤ (a % b : Nat) / b := by positivity
  have hless := Decimal.rest_lt_half_iff a hb
  have hgreater := Decimal.half_lt_rest_iff a hb
  rw [Decimal.div_eq_quotient_add_rest a hb, Decimal.divHalfEven]
  generalize a / b = whole
  generalize ((a % b : Nat) : ℚ) / b = rest at hrest hnonneg hless hgreater
  split
  · rename_i hup
    have hdistance : |(whole : ℚ) + rest - ((whole + 1 : Nat) : ℤ)| = 1 - rest := by
      push_cast
      rw [add_sub_add_left_eq_sub, abs_sub_comm, abs_of_nonneg (by linarith)]
    rcases hup with hgreater' | ⟨hhalf, hodd⟩
    · exact isNearestEven_of_lt (by linarith [hgreater.mpr hgreater'])
    · refine isNearestEven_of_even ?_ ?_
      · linarith [not_lt.mp (mt hless.mp (by omega))]
      · exact_mod_cast Nat.even_iff.mpr (by omega)
  · rename_i hdown
    have hdistance : |(whole : ℚ) + rest - ((whole : Nat) : ℤ)| = rest := by
      push_cast
      rw [add_sub_cancel_left, abs_of_nonneg hnonneg]
    rcases Nat.lt_or_ge (2 * (a % b)) b with hless' | hhalf
    · exact isNearestEven_of_lt (by rw [hdistance]; exact hless.mpr hless')
    · refine isNearestEven_of_even ?_ ?_
      · linarith [not_lt.mp (mt hgreater.mp (by omega))]
      · exact_mod_cast Nat.even_iff.mpr (by omega)

theorem IsNearestDecimal.neg (h : IsNearestDecimal x digits places) :
    IsNearestDecimal (-x) (-digits) places := by
  refine ⟨?_, by rw [abs_neg]; exact h.fits, h.places_le, ?_⟩
  · rw [neg_mul]
    exact h.rounded.neg
  · intro more hmore hgreater longer hlonger
    rw [← abs_neg longer]
    refine h.widest more hmore hgreater (-longer) ?_
    rw [← neg_neg x, neg_mul]
    exact hlonger.neg

/-- A sign goes over from a fraction to its digits. -/
theorem IsNearestDecimal.signed {mantissa : Nat} (h : IsNearestDecimal x mantissa places)
    (negative : Bool) : IsNearestDecimal (Decimal.signFactor negative * x)
      (Decimal.signed ⟨negative, mantissa, places⟩) places := by
  cases negative
  · rw [Decimal.signFactor, if_neg (by decide), one_mul]
    exact h
  · rw [Decimal.signFactor, if_pos rfl, neg_one_mul]
    exact h.neg

/-- The decimal for a representable fraction is the fraction itself. -/
theorem IsNearestDecimal.eq_of_representable (h : IsNearestDecimal x digits places)
    (hx : Decimal.Representable x) : (digits : ℚ) / 10 ^ places = x := by
  obtain ⟨number, hnumber, hvalue⟩ := hx
  rw [Decimal.value_eq_signed] at hvalue
  rcases Nat.lt_or_ge places number.scale with hshort | hlong
  · -- One more digit would have been kept.
    have hexact : x * 10 ^ number.scale = number.signed := by
      rw [← hvalue, div_mul_cancel₀ _ (by positivity)]
    have hfull := h.widest number.scale hnumber.scale_le hshort number.signed
      (hexact ▸ isNearestEven_intCast _)
    have hfits := hnumber.mantissa_lt
    rw [← Int.natCast_natAbs, Decimal.natAbs_signed] at hfull
    omega
  · have hexact : x * 10 ^ places =
        (number.signed * 10 ^ (places - number.scale) : ℤ) := by
      rw [← hvalue, ← Nat.add_sub_cancel' hlong, pow_add, ← mul_assoc,
        div_mul_cancel₀ _ (by positivity), Nat.add_sub_cancel_left]
      push_cast
      rfl
    have hdigits := IsNearestEven.eq_of_intCast (hexact ▸ h.rounded)
    rw [hdigits, ← hexact, mul_div_cancel_right₀ _ (by positivity)]

end DerivedTelemetry.Rounding

namespace DerivedTelemetry.Decimal

open Rounding

variable {a b quotient : Decimal} {numerator denominator greatest : Nat}

/-! ### Digits of a long division -/

theorem isNearestEven_quotientAt (numerator : Nat) (hdenominator : 0 < denominator)
    (scale : Nat) :
    IsNearestEven ((numerator : ℚ) / denominator * 10 ^ scale)
      (quotientAt numerator denominator scale : Nat) := by
  have hscaled : (numerator : ℚ) / denominator * 10 ^ scale =
      (numerator * tenTo scale : Nat) / denominator := by
    rw [Nat.cast_mul, cast_tenTo, div_mul_eq_mul_div]
  rw [hscaled]
  exact isNearestEven_div _ hdenominator

/-- At any scale beyond the one that is taken the digits would not fit. -/
theorem capacity_le_quotientAt (h : quotientScale? numerator denominator = some greatest)
    {more : Nat} (hmore : more ≤ maxScale) (hgreater : greatest < more) :
    capacity ≤ quotientAt numerator denominator more := by
  obtain ⟨-, index, hindex, hfound, hbefore⟩ := List.find?_eq_some_iff_getElem.mp h
  rw [List.length_reverse, List.length_range] at hindex
  rw [List.getElem_reverse, List.getElem_range, List.length_range] at hfound
  have hskipped := hbefore (maxScale - more) (by omega)
  rw [List.getElem_reverse, List.getElem_range, List.length_range,
    show maxScale + 1 - 1 - (maxScale - more) = more by omega] at hskipped
  exact Nat.le_of_not_lt fun hfits => by rw [decide_eq_true hfits] at hskipped; cases hskipped

theorem isNearestDecimal_quotientAt (hdenominator : 0 < denominator)
    (h : quotientScale? numerator denominator = some greatest) :
    IsNearestDecimal ((numerator : ℚ) / denominator)
      (quotientAt numerator denominator greatest : Nat) greatest := by
  obtain ⟨hfits, hscale⟩ := quotientAt_lt_of_scale h (Nat.le_refl greatest)
  refine ⟨isNearestEven_quotientAt numerator hdenominator greatest, ?_, hscale, ?_⟩
  · rw [Nat.abs_cast]
    exact_mod_cast hfits
  · intro more hmore hgreater longer hlonger
    rw [hlonger.unique (isNearestEven_quotientAt numerator hdenominator more), Nat.abs_cast]
    exact_mod_cast capacity_le_quotientAt h hmore hgreater

theorem value_quotientAt_of_dvd {scale : Nat} (hdenominator : 0 < denominator)
    (h : denominator ∣ numerator * tenTo scale) :
    (quotientAt numerator denominator scale : ℚ) / 10 ^ scale = (numerator : ℚ) / denominator := by
  have hdenominator' : (denominator : ℚ) ≠ 0 := by exact_mod_cast hdenominator.ne'
  obtain ⟨whole, hwhole⟩ := h
  rw [quotientAt, hwhole, Nat.mul_comm denominator, divHalfEven_mul_cancel _ hdenominator,
    div_eq_div_iff (by positivity) hdenominator', ← cast_tenTo]
  rw [Nat.mul_comm denominator] at hwhole
  exact_mod_cast hwhole.symm

/-! ### Quotients of decimals -/

/-- The quotient of two numbers, over whole numbers. -/
theorem value_div (a b : Decimal) :
    a.value / b.value = signFactor (a.negative != b.negative) *
      ((a.mantissa * tenTo b.scale : Nat) / (b.mantissa * tenTo a.scale : Nat)) := by
  have hsquare : signFactor b.negative * signFactor b.negative = 1 := by
    cases b.negative <;> norm_num [signFactor]
  have hinverse : (signFactor b.negative)⁻¹ = signFactor b.negative := by
    rw [inv_eq_one_div, div_eq_iff (left_ne_zero_of_mul_eq_one hsquare), hsquare]
  rw [value_eq a, value_eq b, signFactor_bne, mul_div_mul_comm, div_eq_mul_inv, hinverse,
    div_div_div_eq]
  push_cast [cast_tenTo]
  rw [mul_comm (10 ^ a.scale : ℚ)]

/-- Digits that fit at some scale have a greatest scale at which they do. -/
theorem exists_quotientScale?_of_lt {scale : Nat} (hscale : scale ≤ maxScale)
    (h : quotientAt numerator denominator scale < capacity) :
    ∃ greatest, quotientScale? numerator denominator = some greatest :=
  Option.isSome_iff_exists.mp (List.find?_isSome.mpr
    ⟨scale, List.mem_reverse.mpr (List.mem_range.mpr (Nat.lt_succ_of_le hscale)),
      decide_eq_true h⟩)

/-- A fraction that is representable has a scale at which its digits fit. -/
theorem exists_quotientScale? {negative : Bool} (hdenominator : 0 < denominator)
    (h : Representable (signFactor negative * ((numerator : ℚ) / denominator))) :
    ∃ greatest, quotientScale? numerator denominator = some greatest := by
  obtain ⟨number, hnumber, hvalue⟩ := h
  have hmagnitude : (numerator : ℚ) / denominator * 10 ^ number.scale = number.mantissa := by
    have := congrArg (|·|) hvalue
    rw [abs_value, abs_mul, abs_signFactor, one_mul, abs_of_nonneg (by positivity)] at this
    rw [← this, div_mul_cancel₀ _ (by positivity)]
  have hdigits : quotientAt numerator denominator number.scale = number.mantissa := by
    have hnearest := isNearestEven_quotientAt numerator hdenominator number.scale
    rw [hmagnitude] at hnearest
    exact Int.ofNat_inj.mp (IsNearestEven.eq_of_intCast (n := number.mantissa) hnearest)
  exact exists_quotientScale?_of_lt hnumber.scale_le (hdigits ▸ hnumber.mantissa_lt)

/-- The division comes out even at the scale that is taken for it. -/
theorem dvd_of_evenScale? {scale : Nat} (h : evenScale? a b = some scale) :
    b.mantissa * tenTo a.scale ∣ a.mantissa * tenTo b.scale * tenTo scale := by
  obtain ⟨blocks, hblocks, rfl⟩ := Option.map_eq_some_iff.mp h
  have heven : b.mantissa ∣ a.mantissa * tenTo (blockLength * blocks) :=
    Nat.dvd_of_mod_eq_zero (beq_iff_eq.mp (List.find?_some
      (p := fun blocks => a.mantissa * tenTo (blockLength * blocks) % b.mantissa == 0) hblocks))
  obtain ⟨rest, hrest⟩ := Nat.exists_eq_add_of_le (by omega :
    a.scale + blockLength * blocks ≤ b.scale + (a.scale + blockLength * blocks - b.scale))
  have hproduct : a.mantissa * tenTo b.scale * tenTo (a.scale + blockLength * blocks - b.scale) =
      a.mantissa * tenTo (blockLength * blocks) * tenTo a.scale * tenTo rest := by
    rw [Nat.mul_assoc, ← tenTo_add, hrest, tenTo_add, tenTo_add]
    ring
  rw [hproduct]
  exact Dvd.dvd.mul_right (Nat.mul_dvd_mul_right heven _) _

/-- Zero digits have no sign to lose. -/
theorem value_withoutSign (negative : Bool) (mantissa scale : Nat) :
    value ⟨negative && mantissa != 0, mantissa, scale⟩ =
      signFactor negative * (mantissa / 10 ^ scale) := by
  rw [value_eq]
  dsimp only
  rcases Nat.eq_zero_or_pos mantissa with rfl | hpos
  · rw [Nat.cast_zero, zero_div, mul_zero, mul_zero]
  · rw [bne_iff_ne.mpr hpos.ne', Bool.and_true]

/-- Mantissas that divide evenly need no digit more. -/
theorem value_of_mod_eq_zero (hdivisor : 0 < b.mantissa) (heven : a.mantissa % b.mantissa = 0)
    (hscale : b.scale ≤ a.scale) :
    value ⟨a.negative != b.negative, a.mantissa / b.mantissa, a.scale - b.scale⟩ =
      a.value / b.value := by
  have hdivisor' : (b.mantissa : ℚ) ≠ 0 := by exact_mod_cast hdivisor.ne'
  obtain ⟨whole, hwhole⟩ := Nat.dvd_of_mod_eq_zero heven
  rw [value_div, value_eq]
  dsimp only
  rw [hwhole, Nat.mul_div_cancel_left _ hdivisor]
  congr 1
  push_cast [cast_tenTo]
  rw [div_eq_div_iff (by positivity) (by positivity), ← Nat.sub_add_cancel hscale, pow_add,
    Nat.add_sub_cancel]
  ring

/-- A quotient is exact, or it is the nearest decimal. -/
theorem value_of_div? (hb : ¬b.isZero = true) (h : a.div? b = some quotient) :
    quotient.value = a.value / b.value ∨
      ∃ digits places, IsNearestDecimal (a.value / b.value) digits places ∧
        quotient.value = digits / 10 ^ places := by
  have hdivisor : 0 < b.mantissa := mantissa_pos hb
  have hdenominator : 0 < b.mantissa * tenTo a.scale := Nat.mul_pos hdivisor (tenTo_pos _)
  rw [div?] at h
  split at h
  · rename_i hzero
    obtain rfl := Option.some.inj h
    left
    rw [value_eq_zero hzero, zero_div, value_zero]
  · dsimp only at h
    split at h
    · rename_i heven
      obtain rfl := Option.some.inj h
      exact Or.inl (value_of_mod_eq_zero hdivisor heven.1 heven.2)
    · obtain ⟨greatest, hgreatest, rfl⟩ := Option.map_eq_some_iff.mp h
      rw [value_trimmed, value_withoutSign]
      by_cases hfull : min greatest ((evenScale? a b).getD greatest) = greatest
      · right
        rw [hfull]
        have hnearest := (isNearestDecimal_quotientAt hdenominator hgreatest).signed
          (a.negative != b.negative)
        rw [← value_div] at hnearest
        refine ⟨_, greatest, hnearest, ?_⟩
        rw [← value_eq_signed ⟨_, _, greatest⟩, value_eq]
      · left
        obtain ⟨scale, hscale⟩ : ∃ scale, evenScale? a b = some scale := by
          refine Option.isSome_iff_exists.mp (Option.isSome_iff_ne_none.mpr fun hnone => hfull ?_)
          rw [hnone, Option.getD_none, Nat.min_self]
        rw [hscale, Option.getD_some] at hfull ⊢
        rw [Nat.min_eq_right (by omega), value_div,
          value_quotientAt_of_dvd hdenominator (dvd_of_evenScale? hscale)]

/-- A representable quotient is computed, and it is exact. -/
theorem exists_div? (hb : ¬b.isZero = true) (h : Representable (a.value / b.value)) :
    ∃ quotient, a.div? b = some quotient ∧ quotient.value = a.value / b.value := by
  have hdivisor : 0 < b.mantissa := mantissa_pos hb
  obtain ⟨quotient, hquotient⟩ : ∃ quotient, a.div? b = some quotient := by
    obtain ⟨greatest, hgreatest⟩ :=
      exists_quotientScale? (Nat.mul_pos hdivisor (tenTo_pos a.scale)) (value_div a b ▸ h)
    rw [div?]
    split
    · exact ⟨_, rfl⟩
    · dsimp only
      split
      · exact ⟨_, rfl⟩
      · exact ⟨_, by rw [hgreatest]; rfl⟩
  refine ⟨quotient, hquotient, ?_⟩
  rcases value_of_div? hb hquotient with hexact | ⟨digits, places, hnearest, hvalue⟩
  · exact hexact
  · rw [hvalue, hnearest.eq_of_representable h]

/-- There is a nearest decimal for every number within the bounds. -/
theorem exists_isNearestDecimal {x : ℚ} (h : Representable x) :
    ∃ digits places, IsNearestDecimal x digits places := by
  obtain ⟨number, hnumber, rfl⟩ := h
  have hfraction : number.value =
      signFactor number.negative * (number.mantissa / (tenTo number.scale : Nat)) := by
    rw [value_eq, cast_tenTo]
  obtain ⟨greatest, hgreatest⟩ :=
    exists_quotientScale? (tenTo_pos number.scale) (hfraction ▸ hnumber.representable)
  rw [hfraction]
  exact ⟨_, greatest, (isNearestDecimal_quotientAt (tenTo_pos _) hgreatest).signed _⟩

/-- Every quotient has the nearest decimal as its value. -/
theorem exists_nearest_of_div? (ha : a.WellFormed) (hb : ¬b.isZero = true)
    (h : a.div? b = some quotient) :
    ∃ digits places, IsNearestDecimal (a.value / b.value) digits places ∧
      quotient.value = digits / 10 ^ places := by
  rcases value_of_div? hb h with hexact | hnearest
  · have hquotient : quotient.WellFormed := within_zero_iff.mp ((ha.within 0).div? h)
    have hrepresentable : Representable (a.value / b.value) := ⟨quotient, hquotient, hexact⟩
    obtain ⟨digits, places, hnearest⟩ := exists_isNearestDecimal hrepresentable
    exact ⟨digits, places, hnearest, by rw [hexact, hnearest.eq_of_representable hrepresentable]⟩
  · exact hnearest

end DerivedTelemetry.Decimal
