import DerivedTelemetry.Decimal.Checked
import DerivedTelemetry.Proofs.Decimal.Nearest

/-!
# Sums, differences and products

An operation has an exact result, which is a fraction.  It answers the nearest decimal: the
exact result itself where that is representable, and a rounded one where it is not.  Only an
exact result that is rounded to the capacity or beyond is an overflow.

So these operations are checked, but they are not exact.  A sum of two numbers of different
size loses the last digits of the smaller one, and a product of two small numbers vanishes.
-/

namespace DerivedTelemetry.Decimal

open Rounding

variable {x : ℚ} {a b number : Decimal}

/-- A product of two words with so many digits after the point is less than half a unit in
the last place there is. -/
theorem abs_mul_le_of_words (hwords : a.mantissa < wordCapacity ∧ b.mantissa < wordCapacity)
    (hscale : wordProductScale < a.scale + b.scale) :
    |a.value * b.value| ≤ 1 / 2 / 10 ^ maxScale := by
  have hproduct : ((a.mantissa * b.mantissa : Nat) : ℚ) * 2 ≤ 10 ^ 20 := by
    have hless : a.mantissa * b.mantissa ≤ wordCapacity * wordCapacity :=
      Nat.mul_le_mul hwords.1.le hwords.2.le
    have hwhole : a.mantissa * b.mantissa * 2 ≤ 10 ^ 20 :=
      Nat.le_trans (Nat.mul_le_mul_right 2 hless) (by decide +kernel)
    exact_mod_cast hwhole
  have hplaces : (10 : ℚ) ^ 20 * 10 ^ maxScale ≤ 10 ^ (a.scale + b.scale) := by
    rw [← pow_add]
    exact pow_le_pow_right₀ (by norm_num) hscale
  rw [value_mul, abs_value, div_div, div_le_div_iff₀ (by positivity) (by positivity), one_mul,
    ← mul_assoc]
  calc
    ((a.mantissa * b.mantissa : Nat) : ℚ) * 2 * 10 ^ maxScale ≤ 10 ^ 20 * 10 ^ maxScale := by
      gcongr
    _ ≤ 10 ^ (a.scale + b.scale) := hplaces

/-- A product that is taken to be zero without being worked out has zero as its nearest
decimal, so that all products are alike. -/
theorem rounds_product? (a b : Decimal) : Rounds (a.value * b.value) (a.mul? b) := by
  rcases Nat.lt_or_ge wordProductScale (a.scale + b.scale) with hgreat | hscale
  · rw [mul?]
    split
    · rename_i hzero
      exact .of_wellFormed wellFormed_zero (by rw [value_zero, value_mul_eq_zero hzero])
    · dsimp only
      rw [if_pos hgreat]
      split
      · rename_i hwords
        have hvanished := isNearestDecimal_zero (abs_mul_le_of_words hwords hgreat)
        refine ⟨fun number hnumber => ?_, fun _ _ _ => ⟨zero, rfl⟩⟩
        obtain rfl := Option.some.inj hnumber
        exact ⟨0, maxScale, hvanished, by rw [value_zero, Int.cast_zero, zero_div]⟩
      · rw [value_mul]
        exact rounds_fit? _ _ _
  · exact rounds_mul? hscale

/-- Only half a unit in the last place there is, or less, vanishes. -/
theorem Nearest.value_eq_zero_iff (h : Nearest x number) :
    number.value = 0 ↔ |x| ≤ 1 / 2 / 10 ^ maxScale := by
  constructor
  · intro hvalue
    obtain ⟨digits, places, hnearest, hdigits⟩ := h
    have hzero : digits = 0 := by
      rw [hvalue, eq_comm, div_eq_zero_iff] at hdigits
      exact_mod_cast hdigits.resolve_right (by positivity)
    exact (hzero ▸ hnearest).abs_le_of_zero
  · intro hsmall
    have hzero : Nearest x zero :=
      ⟨0, maxScale, isNearestDecimal_zero hsmall, by rw [value_zero, Int.cast_zero, zero_div]⟩
    rw [h.value_eq hzero, value_zero]

/-- The nearest decimal is exact where it can be. -/
theorem Nearest.value_eq_iff (h : Nearest x number) (hfits : number.WellFormed) :
    number.value = x ↔ Representable x := by
  refine ⟨fun hvalue => hvalue ▸ hfits.representable, fun hx => ?_⟩
  obtain ⟨digits, places, hnearest, hvalue⟩ := h
  exact hvalue.trans (hnearest.eq_of_representable hx)

theorem Nearest.abs_lt (h : Nearest x number) : |x| < capacity - 1 / 2 := by
  obtain ⟨_, _, hnearest, _⟩ := h
  exact hnearest.abs_lt

end DerivedTelemetry.Decimal

namespace DerivedTelemetry.Checked

open Decimal

variable {x : ℚ} {a b : Decimal} {result : Option Decimal}

/-- What becomes of an exact result: the nearest decimal, which is the exact result just when
that is representable, or the fault of an overflow when no decimal is the nearest one. -/
inductive Settles (x : ℚ) (overflow : Fault) : Except Fault Decimal → Prop where
  | answer {number : Decimal} (hfits : number.WellFormed) (hnearest : Nearest x number)
      (hexact : number.value = x ↔ Representable x) (hroom : |x| < capacity - 1 / 2) :
      Settles x overflow (.ok number)
  | fault (hgreat : capacity - 1 / 2 ≤ |x|) : Settles x overflow (.error overflow)

theorem settles_of_rounds (h : Rounds x result)
    (hfits : ∀ number, result = some number → number.WellFormed) (cause : ArithmeticFault) :
    Settles x (.arithmetic cause) (orFault result cause) := by
  cases hresult : result with
  | none =>
    refine .fault (not_lt.mp fun hroom => ?_)
    obtain ⟨digits, places, hnearest⟩ := Rounding.exists_isNearestDecimal_of_abs_lt hroom
    obtain ⟨number, hnumber⟩ := h.exists_some digits places hnearest
    rw [hresult] at hnumber
    cases hnumber
  | some number =>
    have hnearest := h.nearest number hresult
    have hnumber := hfits number hresult
    exact .answer hnumber hnearest (hnearest.value_eq_iff hnumber) hnearest.abs_lt

theorem settles_add (ha : a.WellFormed) (hb : b.WellFormed) :
    Settles (a.value + b.value) (.arithmetic (.overflow .add a b)) (add a b) :=
  settles_of_rounds (rounds_add? ha hb)
    (fun _ h => within_zero_iff.mp ((ha.within 0).add? (hb.within 0) h)) _

theorem settles_sub (ha : a.WellFormed) (hb : b.WellFormed) :
    Settles (a.value - b.value) (.arithmetic (.overflow .sub a b)) (sub a b) :=
  settles_of_rounds (rounds_sub? ha hb)
    (fun _ h => within_zero_iff.mp ((ha.within 0).sub? (hb.within 0) h)) _

theorem settles_mul (a b : Decimal) :
    Settles (a.value * b.value) (.arithmetic (.overflow .mul a b)) (mul a b) :=
  settles_of_rounds (rounds_product? a b) (fun _ => wellFormed_of_mul?) _

/-- Sums, differences and products are the nearest decimals to the exact results, and faults
only beyond the greatest decimal.  A product vanishes just when it is not more than half a
unit in the last place there is. -/
theorem results_nearest (ha : a.WellFormed) (hb : b.WellFormed) :
    Settles (a.value + b.value) (.arithmetic (.overflow .add a b)) (add a b) ∧
      Settles (a.value - b.value) (.arithmetic (.overflow .sub a b)) (sub a b) ∧
      Settles (a.value * b.value) (.arithmetic (.overflow .mul a b)) (mul a b) ∧
      ∀ product, mul a b = .ok product →
        (product.value = 0 ↔ |a.value * b.value| ≤ 1 / 2 / 10 ^ maxScale) := by
  refine ⟨settles_add ha hb, settles_sub ha hb, settles_mul a b, fun product hproduct => ?_⟩
  have hsettles := settles_mul a b
  rw [hproduct] at hsettles
  cases hsettles with
  | answer _ hnearest _ _ => exact hnearest.value_eq_zero_iff

/-- The product of these two has one digit too many, which is rounded to the even
neighbour. -/
theorem results_nearest_of_small_factor :
    let a : Decimal := ⟨false, 3, 28⟩
    let b : Decimal := ⟨true, 5, 1⟩
    (a.WellFormed ∧ b.WellFormed) ∧
      Settles (a.value + b.value) (.arithmetic (.overflow .add a b))
        (.ok ⟨true, 4999999999999999999999999997, 28⟩) ∧
      Settles (a.value - b.value) (.arithmetic (.overflow .sub a b))
        (.ok ⟨false, 5000000000000000000000000003, 28⟩) ∧
      Settles (a.value * b.value) (.arithmetic (.overflow .mul a b)) (.ok ⟨true, 2, 28⟩) ∧
      1 / 2 / 10 ^ maxScale < |a.value * b.value| := by
  intro a b
  have hfits : a.WellFormed ∧ b.WellFormed := ⟨by decide +kernel, by decide +kernel⟩
  obtain ⟨hadd, hsub, hmul, hvanishes⟩ := results_nearest hfits.1 hfits.2
  have hsum : add a b = .ok ⟨true, 4999999999999999999999999997, 28⟩ := by decide +kernel
  have hchange : sub a b = .ok ⟨false, 5000000000000000000000000003, 28⟩ := by decide +kernel
  have hproduct : mul a b = .ok ⟨true, 2, 28⟩ := by decide +kernel
  refine ⟨hfits, hsum ▸ hadd, hchange ▸ hsub, hproduct ▸ hmul, ?_⟩
  exact not_le.mp (mt (hvanishes _ hproduct).mpr (value_ne_zero (by decide)))

/-- A tenth is lost beside the greatest decimal, whether it is added or taken away, and
nothing at all is left of a tenth of the smallest one. -/
theorem results_inexact :
    let greatest : Decimal := ⟨false, capacity - 1, 0⟩
    let smallest : Decimal := ⟨false, 1, maxScale⟩
    let tenth : Decimal := ⟨false, 1, 1⟩
    (greatest.WellFormed ∧ smallest.WellFormed ∧ tenth.WellFormed) ∧
      (add greatest tenth = .ok greatest ∧ greatest.value ≠ greatest.value + tenth.value) ∧
      (sub greatest tenth = .ok greatest ∧ greatest.value ≠ greatest.value - tenth.value) ∧
      ∃ product, mul smallest tenth = .ok product ∧ product.value = 0 ∧
        smallest.value ≠ 0 ∧ tenth.value ≠ 0 := by
  intro greatest smallest tenth
  have htenth : tenth.value ≠ 0 := value_ne_zero (by decide)
  refine ⟨⟨by decide +kernel, by decide +kernel, by decide +kernel⟩,
    ⟨by decide +kernel, ?_⟩, ⟨by decide +kernel, ?_⟩,
    ⟨false, 0, maxScale⟩, by decide +kernel, value_eq_zero (by decide),
      value_ne_zero (by decide), htenth⟩
  · rwa [ne_eq, left_eq_add]
  · rwa [ne_eq, eq_comm, sub_eq_self]

end DerivedTelemetry.Checked
