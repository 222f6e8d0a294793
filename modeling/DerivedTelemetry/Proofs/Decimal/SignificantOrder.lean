import DerivedTelemetry.Proofs.Decimal.Significant
import Mathlib.Algebra.Order.Group.Basic
import Mathlib.Order.Monotone.Odd

/-!
# Significant digits and order

Rounding to significant digits keeps the order of fractions.  With one unit this is clear,
and between fractions of different magnitude there is a power of ten, which is a multiple of
either unit.

It is still so where a rounded number that has no room is left as it is.  A smaller
fraction cannot be rounded up beyond it, since a second rounding changes nothing.
-/

namespace DerivedTelemetry.Rounding

variable {x y : ℚ} {place : ℤ} {precision : Nat}

/-- Roundings treat both signs alike, so they are compared above zero only. -/
theorem nearestAway_mono : Monotone nearestAway := by
  refine monotone_of_odd_of_monotoneOn_nonneg nearestAway_neg fun x hx y hy hle => ?_
  rw [nearestAway_of_nonneg hx, nearestAway_of_nonneg hy]
  exact_mod_cast Int.floor_le_floor (by linarith)

theorem atPlace_mono (place : ℤ) : Monotone (atPlace place) := by
  intro x y hle
  have hunit := ten_zpow_pos place
  have hdigits : nearestAway (x / 10 ^ place) ≤ nearestAway (y / 10 ^ place) :=
    nearestAway_mono (div_le_div_of_nonneg_right hle hunit.le)
  exact mul_le_mul_of_nonneg_right hdigits hunit.le

theorem atPlace_zero (place : ℤ) : atPlace place 0 = 0 :=
  atPlace_of_multiple (n := 0) (by rw [Int.cast_zero, zero_mul])

theorem atPlace_atPlace (place : ℤ) (x : ℚ) :
    atPlace place (atPlace place x) = atPlace place x := by
  refine atPlace_of_multiple (n := SignType.sign (x / 10 ^ place) * ⌊|x / 10 ^ place| + 1 / 2⌋) ?_
  rw [atPlace, nearestAway]
  push_cast
  rfl

/-- A power of ten is a multiple of every smaller unit. -/
theorem atPlace_power {exponent : ℤ} (h : place ≤ exponent) :
    atPlace place (10 ^ exponent) = 10 ^ exponent := by
  refine atPlace_of_multiple (n := 10 ^ (exponent - place).toNat) ?_
  push_cast
  rw [← zpow_natCast, ← zpow_add₀ (by norm_num), Int.toNat_of_nonneg (by omega), sub_add_cancel]

/-- The magnitude of a fraction stays between the same two powers of ten. -/
theorem toSignificant_bounds (hprecision : 1 ≤ precision) (hx : 0 < x) :
    (10 : ℚ) ^ Int.log 10 x ≤ toSignificant precision x ∧
      toSignificant precision x ≤ 10 ^ (Int.log 10 x + 1) := by
  rw [toSignificant, abs_of_pos hx]
  constructor
  · rw [← atPlace_power (by omega : Int.log 10 x + 1 - precision ≤ Int.log 10 x)]
    exact atPlace_mono _ (Int.zpow_log_le_self (by norm_num) hx)
  · rw [← atPlace_power (by omega : Int.log 10 x + 1 - precision ≤ Int.log 10 x + 1)]
    exact atPlace_mono _ (Int.lt_zpow_succ_log_self (by norm_num) x).le

theorem toSignificant_mono (hprecision : 1 ≤ precision) : Monotone (toSignificant precision) := by
  refine monotone_of_odd_of_monotoneOn_nonneg (toSignificant_neg precision) ?_
  intro x hx y hy hle
  rcases (Set.mem_Ici.mp hx).eq_or_lt with rfl | hpos
  · rw [toSignificant_zero, toSignificant, ← atPlace_zero (Int.log 10 |y| + 1 - precision)]
    exact atPlace_mono _ hle
  · have hmagnitude : Int.log 10 x ≤ Int.log 10 y := Int.log_mono_right hpos hle
    rcases hmagnitude.eq_or_lt with hsame | hless
    · rw [toSignificant, toSignificant, abs_of_pos hpos, abs_of_pos (hpos.trans_le hle), hsame]
      exact atPlace_mono _ hle
    · calc
        toSignificant precision x ≤ 10 ^ (Int.log 10 x + 1) :=
          (toSignificant_bounds hprecision hpos).2
        _ ≤ 10 ^ Int.log 10 y := zpow_le_zpow_right₀ (by norm_num) hless
        _ ≤ toSignificant precision y :=
          (toSignificant_bounds hprecision (hpos.trans_le hle)).1

/-- A rounded fraction has no digits left to be rounded away. -/
theorem toSignificant_toSignificant (hprecision : 1 ≤ precision) (x : ℚ) :
    toSignificant precision (toSignificant precision x) = toSignificant precision x := by
  wlog hx : 0 ≤ x generalizing x
  · have hopposite := this (-x) (by linarith)
    rwa [toSignificant_neg, toSignificant_neg, neg_inj] at hopposite
  rcases hx.eq_or_lt with rfl | hpos
  · rw [toSignificant_zero, toSignificant_zero]
  · obtain ⟨hlow, hhigh⟩ := toSignificant_bounds hprecision hpos
    have hrounded : 0 ≤ toSignificant precision x := le_trans (ten_zpow_pos _).le hlow
    rw [← abs_of_nonneg hrounded] at hlow hhigh
    have hplace : toSignificant precision (toSignificant precision x) =
        atPlace (Int.log 10 x + 1 - precision) (toSignificant precision x) :=
      toSignificant_eq_atPlace hprecision (by rwa [sub_add_cancel, add_sub_cancel_right])
        (by rwa [sub_add_cancel])
    rw [hplace]
    rw [toSignificant, abs_of_pos hpos]
    exact atPlace_atPlace _ _

theorem settled_neg (precision : Nat) (x : ℚ) : settled precision (-x) = -settled precision x := by
  rw [settled, settled, toSignificant_neg, abs_neg]
  split
  · rfl
  · rfl

theorem settled_mono (hprecision : 1 ≤ precision) : Monotone (settled precision) := by
  refine monotone_of_odd_of_monotoneOn_nonneg (settled_neg precision) ?_
  intro x hx y hy hle
  have hrounded := toSignificant_mono hprecision hle
  have hnonneg : 0 ≤ toSignificant precision x := by
    rw [← toSignificant_zero precision]
    exact toSignificant_mono hprecision hx
  rw [settled, settled, abs_of_nonneg hnonneg, abs_of_nonneg (hnonneg.trans hrounded)]
  split
  · split
    · exact hrounded
    · rename_i hroom hfull
      by_contra hless
      have hagain := toSignificant_mono hprecision (not_le.mp hless).le
      rw [toSignificant_toSignificant hprecision] at hagain
      exact hfull (lt_of_le_of_lt hagain hroom)
  · rename_i hfull
    rw [if_neg (not_lt.mpr (le_trans (not_lt.mp hfull) hrounded))]
    exact hle

end DerivedTelemetry.Rounding

namespace DerivedTelemetry.Decimal

open Rounding

theorem roundSignificant_mono {a b : Decimal} {precision : Nat} (ha : a.WellFormed)
    (hb : b.WellFormed) (hprecision : 1 ≤ precision) (h : a.value ≤ b.value) :
    a.roundSignificant precision ≤ b.roundSignificant precision := by
  rw [le_iff_value_le, value_roundSignificant hprecision ha.mantissa_lt,
    value_roundSignificant hprecision hb.mantissa_lt]
  exact settled_mono hprecision h

end DerivedTelemetry.Decimal
