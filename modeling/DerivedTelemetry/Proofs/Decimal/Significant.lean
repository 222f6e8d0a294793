import DerivedTelemetry.Proofs.Decimal.Exact
import Mathlib.Algebra.Order.Round
import Mathlib.Data.Int.Log
import Mathlib.Data.Rat.Floor
import Mathlib.Data.Sign.Basic

/-!
# Significant digits

Rounding to a number of significant digits, first as a function on fractions: the last
digit that is kept has a place, given by the magnitude of the number, and the result is the
nearest multiple of the unit of that place.  A half goes away from zero.

The place is only unclear where the magnitude changes: a power of ten may be counted with
the magnitude below it as well, since it is a multiple of either unit.

On decimals the same rounding moves mantissa and scale, and where the zeros that it puts
back in front of the point do not fit, it leaves the number as it is.
-/

namespace DerivedTelemetry.Rounding

/-- The whole number nearest to a fraction, a half going away from zero. -/
def nearestAway (x : ℚ) : ℚ := SignType.sign x * ⌊|x| + 1 / 2⌋

/-- The nearest multiple of a power of ten, a half going away from zero. -/
def atPlace (place : ℤ) (x : ℚ) : ℚ := nearestAway (x / 10 ^ place) * 10 ^ place

/-- A fraction rounded once to `precision` significant digits, a half going away from
zero. -/
def toSignificant (precision : Nat) (x : ℚ) : ℚ :=
  atPlace (Int.log 10 |x| + 1 - precision) x

/-- A fraction half way between two neighbouring numbers of `precision` significant
digits. -/
def Halfway (precision : Nat) (x : ℚ) : Prop :=
  ∃ place below : ℤ, (10 : ℚ) ^ (place + precision - 1) ≤ |x| ∧ |x| ≤ 10 ^ (place + precision) ∧
    |x| = (below + 1 / 2) * 10 ^ place

variable {x y : ℚ} {place : ℤ} {precision : Nat}

theorem ten_zpow_pos (place : ℤ) : (0 : ℚ) < 10 ^ place := zpow_pos (by norm_num) place

theorem nearestAway_of_nonneg (h : 0 ≤ x) : nearestAway x = ⌊x + 1 / 2⌋ := by
  rcases h.eq_or_lt with rfl | hpos
  · norm_num [nearestAway]
  · rw [nearestAway, sign_pos hpos, abs_of_pos hpos, SignType.coe_one, one_mul]

theorem nearestAway_neg (x : ℚ) : nearestAway (-x) = -nearestAway x := by
  rw [nearestAway, nearestAway, Left.sign_neg, abs_neg, SignType.coe_neg, neg_mul]

theorem floor_intCast_add_half (n : ℤ) : ⌊(n : ℚ) + 1 / 2⌋ = n := by
  rw [Int.floor_intCast_add]
  norm_num

theorem nearestAway_intCast (n : ℤ) : nearestAway n = n := by
  have hnonneg : ∀ m : ℤ, 0 ≤ m → nearestAway m = m := by
    intro m hm
    rw [nearestAway_of_nonneg (by exact_mod_cast hm), floor_intCast_add_half]
  rcases le_total 0 n with h | h
  · exact hnonneg n h
  · have hopposite := hnonneg (-n) (by omega)
    rw [Int.cast_neg, nearestAway_neg] at hopposite
    exact neg_injective hopposite

theorem atPlace_neg (place : ℤ) (x : ℚ) : atPlace place (-x) = -atPlace place x := by
  rw [atPlace, atPlace, neg_div, nearestAway_neg, neg_mul]

theorem toSignificant_neg (precision : Nat) (x : ℚ) :
    toSignificant precision (-x) = -toSignificant precision x := by
  rw [toSignificant, toSignificant, abs_neg, atPlace_neg]

theorem toSignificant_zero (precision : Nat) : toSignificant precision 0 = 0 := by
  rw [toSignificant, atPlace, zero_div]
  norm_num [nearestAway]

/-- A multiple of the unit is not changed. -/
theorem atPlace_of_multiple {n : ℤ} (h : x = n * 10 ^ place) : atPlace place x = x := by
  rw [atPlace, h, mul_div_cancel_right₀ _ (ten_zpow_pos place).ne', nearestAway_intCast]

theorem atPlace_of_abs_multiple {n : ℤ} (h : |x| = n * 10 ^ place) : atPlace place x = x := by
  rcases abs_choice x with hx | hx
  · exact atPlace_of_multiple (n := n) (hx ▸ h)
  · refine atPlace_of_multiple (n := -n) ?_
    rw [Int.cast_neg, neg_mul, ← h, hx, neg_neg]

/-- The magnitude fixes the place.  A power of ten counts with the magnitude below it as
well as with its own. -/
theorem toSignificant_eq_atPlace (hprecision : 1 ≤ precision)
    (hlow : (10 : ℚ) ^ (place + precision - 1) ≤ |x|) (hhigh : |x| ≤ 10 ^ (place + precision)) :
    toSignificant precision x = atPlace place x := by
  have hpos : 0 < |x| := lt_of_lt_of_le (ten_zpow_pos _) hlow
  have hten : 1 < 10 := by decide
  rcases hhigh.lt_or_eq with hless | hpower
  · have hlow' := (Int.zpow_le_iff_le_log hten hpos).mp hlow
    have hless' := (Int.lt_zpow_iff_log_lt hten hpos).mp hless
    rw [toSignificant, show Int.log 10 |x| + 1 - precision = place by omega]
  · have hlog : Int.log 10 |x| = place + precision := by
      rw [hpower]
      exact Int.log_zpow hten _
    have hmultiple : ∀ unit : ℤ, unit ≤ place + precision → atPlace unit x = x := by
      intro unit hunit
      refine atPlace_of_abs_multiple (n := 10 ^ (place + precision - unit).toNat) ?_
      push_cast
      rw [← zpow_natCast, ← zpow_add₀ (by norm_num), hpower]
      congr 1
      omega
    rw [toSignificant, hmultiple _ (by omega), hmultiple place (by omega)]

/-- The rounded number, found by its place and its digits. -/
theorem toSignificant_eq_mul (place digits : ℤ) (hprecision : 1 ≤ precision) (hx : 0 ≤ x)
    (hlow : (10 : ℚ) ^ (place + precision - 1) ≤ x) (hhigh : x ≤ 10 ^ (place + precision))
    (hbelow : (digits - 1 / 2) * 10 ^ place ≤ x) (habove : x < (digits + 1 / 2) * 10 ^ place) :
    toSignificant precision x = digits * 10 ^ place := by
  have hunit := ten_zpow_pos place
  rw [← abs_of_nonneg hx] at hlow hhigh
  rw [toSignificant_eq_atPlace hprecision hlow hhigh, atPlace,
    nearestAway_of_nonneg (div_nonneg hx hunit.le)]
  congr 2
  rw [Int.floor_eq_iff, ← sub_le_iff_le_add, ← lt_sub_iff_add_lt, le_div_iff₀ hunit,
    div_lt_iff₀ hunit]
  exact ⟨hbelow, lt_of_lt_of_eq habove (by ring)⟩

/-- A whole number and a rest below one: the rest decides. -/
theorem nearestAway_add {whole : Nat} {rest : ℚ} (hnonneg : 0 ≤ rest) (hless : rest < 1) :
    nearestAway (whole + rest) = if 1 / 2 ≤ rest then (whole : ℚ) + 1 else whole := by
  rw [nearestAway_of_nonneg (by positivity), add_assoc, Int.floor_natCast_add]
  split
  · rename_i hhalf
    rw [show ⌊rest + 1 / 2⌋ = 1 from
      Int.floor_eq_iff.mpr ⟨by norm_num; linarith, by norm_num; linarith⟩]
    norm_num
  · rename_i hhalf
    rw [show ⌊rest + 1 / 2⌋ = 0 from
      Int.floor_eq_iff.mpr ⟨by norm_num; linarith, by norm_num; linarith⟩]
    norm_num

/-- The rounded quotient of two numbers is the nearest whole number. -/
theorem nearestAway_div (m : Nat) {n : Nat} (hn : 0 < n) :
    nearestAway ((m : ℚ) / n) = Decimal.divHalfUp m n := by
  have hhalf : (1 : ℚ) / 2 ≤ (m % n : Nat) / n ↔ n ≤ 2 * (m % n) := by
    rw [← not_lt, Decimal.rest_lt_half_iff m hn, not_lt]
  rw [Decimal.div_eq_quotient_add_rest m hn,
    nearestAway_add (by positivity) (Decimal.rest_lt_one m hn), Decimal.divHalfUp]
  simp only [hhalf]
  split
  · rw [Nat.cast_add, Nat.cast_one]
  · rfl

/-- What is left of a fraction after rounding to significant digits: the fraction itself
where the rounded one has no room before the point. -/
def settled (precision : Nat) (x : ℚ) : ℚ :=
  if |toSignificant precision x| < Decimal.capacity then toSignificant precision x else x

theorem settled_of_lt (h : |toSignificant precision x| < Decimal.capacity) :
    settled precision x = toSignificant precision x := if_pos h

theorem settled_of_le (h : Decimal.capacity ≤ |toSignificant precision x|) :
    settled precision x = x := if_neg (not_lt.mpr h)

end DerivedTelemetry.Rounding

namespace DerivedTelemetry.Decimal

open Rounding

variable {number : Decimal} {precision : Nat}

theorem atPlace_signFactor_mul (place : ℤ) (negative : Bool) (x : ℚ) :
    atPlace place (signFactor negative * x) = signFactor negative * atPlace place x := by
  cases negative
  · rw [signFactor, if_neg (by decide), one_mul, one_mul]
  · rw [signFactor, if_pos rfl, neg_one_mul, neg_one_mul, atPlace_neg]

/-- The magnitude of a number is that of its digits and its scale. -/
theorem magnitude_bounds (hnonzero : number.mantissa ≠ 0) :
    (10 : ℚ) ^ ((digitCount number.mantissa : ℤ) - number.scale - 1) ≤ |number.value| ∧
      |number.value| ≤ 10 ^ ((digitCount number.mantissa : ℤ) - number.scale) := by
  have hlow : tenTo (digitCount number.mantissa - 1) ≤ number.mantissa := by
    by_contra hless
    have hpos := digitCount_pos number.mantissa
    have hone : digitCount number.mantissa ≠ 1 := by
      intro hone
      rw [hone] at hless
      exact hless (Nat.pos_of_ne_zero hnonzero)
    have hfewer : digitCount number.mantissa ≤ digitCount number.mantissa - 1 :=
      (Nat.length_toDigits_le_iff (by decide) (by omega)).mpr (Nat.lt_of_not_le hless)
    omega
  have hhigh : number.mantissa < tenTo (digitCount number.mantissa) := lt_tenTo_digitCount _
  have hlow' : (10 : ℚ) ^ (digitCount number.mantissa - 1) ≤ number.mantissa := by
    rw [← cast_tenTo]
    exact_mod_cast hlow
  have hhigh' : (number.mantissa : ℚ) ≤ 10 ^ digitCount number.mantissa := by
    rw [← cast_tenTo]
    exact_mod_cast hhigh.le
  have hpos := digitCount_pos number.mantissa
  have hfirst : (digitCount number.mantissa : ℤ) - number.scale - 1 + number.scale =
      (digitCount number.mantissa - 1 : Nat) := by omega
  rw [abs_value, le_div_iff₀ (by positivity), div_le_iff₀ (by positivity), ← zpow_natCast,
    ← zpow_add₀ (by norm_num), ← zpow_add₀ (by norm_num), hfirst, sub_add_cancel, zpow_natCast,
    zpow_natCast]
  exact ⟨hlow', hhigh'⟩

theorem toSignificant_value (hprecision : 1 ≤ precision) (hnonzero : number.mantissa ≠ 0) :
    toSignificant precision number.value = signFactor number.negative *
      atPlace ((digitCount number.mantissa : ℤ) - number.scale - precision)
        (number.mantissa / 10 ^ number.scale) := by
  obtain ⟨hlow, hhigh⟩ := magnitude_bounds hnonzero
  rw [← atPlace_signFactor_mul, ← value_eq]
  refine toSignificant_eq_atPlace hprecision ?_ ?_
  · rwa [sub_add_cancel]
  · rwa [sub_add_cancel]

/-- No digit is dropped from a number that has no more than are wanted. -/
theorem toSignificant_of_few_digits (hprecision : 1 ≤ precision)
    (hnonzero : number.mantissa ≠ 0) (hfew : digitCount number.mantissa ≤ precision) :
    toSignificant precision number.value = number.value := by
  rw [toSignificant_value hprecision hnonzero, value_eq]
  congr 1
  refine atPlace_of_multiple (n := number.mantissa *
    10 ^ (precision - digitCount number.mantissa)) ?_
  have hplace : (digitCount number.mantissa : ℤ) - number.scale - precision =
      -((precision - digitCount number.mantissa : Nat) : ℤ) - number.scale := by omega
  rw [hplace, zpow_sub₀ (by norm_num), zpow_neg, zpow_natCast, zpow_natCast]
  push_cast
  field_simp

/-- Dropped digits are rounded away, and zeros are put back for those before the point. -/
theorem toSignificant_of_dropped {dropped : Nat} (hprecision : 1 ≤ precision)
    (hnonzero : number.mantissa ≠ 0)
    (hdigits : digitCount number.mantissa = precision + dropped) :
    toSignificant precision number.value = signFactor number.negative *
      (divHalfUp number.mantissa (tenTo dropped) * 10 ^ dropped / 10 ^ number.scale) := by
  have hplace : (digitCount number.mantissa : ℤ) - number.scale - precision =
      dropped - number.scale := by omega
  have hquotient : (number.mantissa : ℚ) / 10 ^ number.scale / (10 ^ dropped / 10 ^ number.scale) =
      number.mantissa / (tenTo dropped : Nat) := by
    rw [cast_tenTo]
    field_simp
  rw [toSignificant_value hprecision hnonzero, hplace, atPlace, zpow_sub₀ (by norm_num),
    zpow_natCast, zpow_natCast, hquotient, nearestAway_div _ (tenTo_pos dropped), mul_div_assoc]

theorem abs_value_lt (h : number.mantissa < capacity) : |number.value| < capacity := by
  rw [abs_value]
  have hone : (1 : ℚ) ≤ 10 ^ number.scale := one_le_pow₀ (by norm_num)
  calc
    (number.mantissa : ℚ) / 10 ^ number.scale ≤ number.mantissa :=
      div_le_self (by positivity) hone
    _ < capacity := by exact_mod_cast h

/-- The digits that are left are all after the point. -/
theorem value_of_dropped_places {dropped : Nat} (hprecision : 1 ≤ precision)
    (hnonzero : number.mantissa ≠ 0)
    (hdigits : digitCount number.mantissa = precision + dropped)
    (hplaces : dropped ≤ number.scale) :
    value { number with
      mantissa := divHalfUp number.mantissa (tenTo dropped)
      scale := number.scale - dropped } = toSignificant precision number.value := by
  rw [toSignificant_of_dropped hprecision hnonzero hdigits, value_eq]
  congr 1
  rw [div_eq_div_iff (by positivity) (by positivity), mul_assoc, ← pow_add,
    Nat.add_sub_cancel' hplaces]

/-- Zeros stand in for the digits that were dropped before the point. -/
theorem value_of_dropped_digits {dropped : Nat} (hprecision : 1 ≤ precision)
    (hnonzero : number.mantissa ≠ 0)
    (hdigits : digitCount number.mantissa = precision + dropped)
    (hplaces : number.scale ≤ dropped) :
    value { number with
      mantissa := divHalfUp number.mantissa (tenTo dropped) * tenTo (dropped - number.scale)
      scale := 0 } = toSignificant precision number.value := by
  rw [toSignificant_of_dropped hprecision hnonzero hdigits, value_eq]
  congr 1
  rw [pow_zero, div_one, eq_div_iff (by positivity), Nat.cast_mul, cast_tenTo, mul_assoc,
    ← pow_add, Nat.sub_add_cancel hplaces]

/-- Rounding a number to significant digits rounds its value, unless the zeros that come
back do not fit. -/
theorem value_roundSignificant (hprecision : 1 ≤ precision) (h : number.mantissa < capacity) :
    (number.roundSignificant precision).value = settled precision number.value := by
  rw [roundSignificant]
  dsimp only
  split
  · rename_i hzero
    have hvalue : toSignificant precision number.value = number.value := by
      rw [value_eq_zero hzero, toSignificant_zero]
    rw [settled, hvalue, ite_self]
  · rename_i hnonzero
    replace hnonzero : number.mantissa ≠ 0 := (mantissa_pos hnonzero).ne'
    rw [if_neg (by omega)]
    split
    · rename_i hfew
      have hvalue := toSignificant_of_few_digits hprecision hnonzero hfew
      rw [settled, hvalue, ite_self]
      refine value_eq_of_crossed ?_
      rw [Nat.mul_assoc, ← tenTo_add, Nat.add_comm]
    · rename_i hmany
      obtain ⟨dropped, hdigits⟩ := Nat.exists_eq_add_of_le (Nat.le_of_not_le hmany)
      rw [hdigits, Nat.add_sub_cancel_left]
      split
      · rename_i hplaces
        have hkept := value_of_dropped_places hprecision hnonzero hdigits hplaces
        have hfits : divHalfUp number.mantissa (tenTo dropped) < capacity :=
          Nat.lt_of_le_of_lt (divHalfUp_le _ (tenTo_pos dropped)) h
        rw [hkept, settled_of_lt]
        exact hkept ▸ abs_value_lt hfits
      · rename_i hplaces
        have hwhole := value_of_dropped_digits hprecision hnonzero hdigits (by omega)
        have hmagnitude := congrArg (|·|) hwhole
        rw [abs_value, pow_zero, div_one] at hmagnitude
        split
        · rename_i hroom
          rw [hwhole, settled_of_lt]
          rw [← hmagnitude]
          exact_mod_cast hroom
        · rename_i hfull
          rw [settled_of_le]
          rw [← hmagnitude]
          exact_mod_cast Nat.le_of_not_lt hfull

theorem value_roundSignificant_zero (number : Decimal) :
    (number.roundSignificant 0).value = 0 := by
  rw [roundSignificant]
  dsimp only
  split
  · rename_i hzero
    exact value_eq_zero hzero
  · rw [if_pos rfl, value_zero]

/-- Rounding to significant digits sees the value only. -/
theorem value_roundSignificant_eq {a b : Decimal} (ha : a.mantissa < capacity)
    (hb : b.mantissa < capacity) (h : a.value = b.value) (precision : Nat) :
    (a.roundSignificant precision).value = (b.roundSignificant precision).value := by
  rcases Nat.eq_zero_or_pos precision with rfl | hprecision
  · rw [value_roundSignificant_zero, value_roundSignificant_zero]
  · rw [value_roundSignificant hprecision ha, value_roundSignificant hprecision hb, h]

end DerivedTelemetry.Decimal
