import DerivedTelemetry.Decimal.Checked
import DerivedTelemetry.Proofs.Decimal.Quotients
import DerivedTelemetry.Proofs.Decimal.Significant
import Mathlib.Algebra.Order.Archimedean.Basic
import Mathlib.Tactic.NormNum

/-!
# Two roundings of one quotient

A division rounds twice: first to the nearest decimal, a half to the even neighbour, and
then to significant digits, a half away from zero.  Seen from outside this is one rounding,
as long as the first one keeps the digits that are wanted.  Between two multiples of the
unit of the last wanted digit the first rounding can move a fraction, but only as far as the
middle: so it matters only when it goes up onto the middle or comes down from it.

Three things are left over, and in all of them the bounds of a decimal are felt.  A small
quotient may have fewer digits than are wanted in front of the last place there is.  The
first rounding may meet the middle.  And the rounded quotient may be too large, in which
case the second rounding is left out.
-/

namespace DerivedTelemetry.Rounding

variable {x : ℚ} {digits : ℤ} {places precision : Nat}

/-- The first of two roundings is not seen after the second: it changes nothing, or it keeps
as many digits as are wanted and neither goes up to half way between two numbers of that many
digits nor comes down from there. -/
def Unseen (precision : Nat) (x : ℚ) (digits : ℤ) (places : Nat) : Prop :=
  (digits : ℚ) / 10 ^ places = x ∨
    ((10 : ℚ) ^ (precision - 1) ≤ |x| * 10 ^ places ∧
      ¬(|x| < |(digits : ℚ) / 10 ^ places| ∧ Halfway precision (digits / 10 ^ places)) ∧
      ¬(|(digits : ℚ) / 10 ^ places| < |x| ∧ Halfway precision x))

theorem Unseen.neg (h : Unseen precision x digits places) :
    Unseen precision (-x) (-digits) places := by
  rw [Unseen, Int.cast_neg, neg_div, abs_neg, abs_neg, Halfway, Halfway, abs_neg, abs_neg,
    neg_inj]
  exact h

/-- Half way between two multiples of an even unit there is a whole number.  What is rounded
to whole numbers stays on the same side of it, unless it is rounded to that very number. -/
theorem floor_add_half_eq {y : ℚ} {half : Nat} (hnear : |y - digits| ≤ 1 / 2) (hhalf : 0 < half)
    (hmiddle : ∀ below : ℤ, (digits : ℚ) = (2 * below + 1) * half → (digits : ℚ) ≤ y) :
    ⌊y / (2 * half) + 1 / 2⌋ = ⌊(digits : ℚ) / (2 * half) + 1 / 2⌋ := by
  have hunit : (0 : ℚ) < 2 * half := by positivity
  have hlow (z : ℚ) (n : ℤ) : (n : ℚ) ≤ z / (2 * half) + 1 / 2 ↔ (2 * n - 1) * half ≤ z := by
    rw [← sub_le_iff_le_add, le_div_iff₀ hunit]
    constructor <;> intro h <;> linarith
  have hhigh (z : ℚ) (n : ℤ) : z / (2 * half) + 1 / 2 < (n : ℚ) + 1 ↔ z < (2 * n + 1) * half := by
    rw [← lt_sub_iff_add_lt, div_lt_iff₀ hunit]
    constructor <;> intro h <;> linarith
  obtain ⟨hnear₁, hnear₂⟩ := abs_le.mp hnear
  set multiple := ⌊(digits : ℚ) / (2 * half) + 1 / 2⌋ with hmultiple
  obtain ⟨hbelow, habove⟩ := Int.floor_eq_iff.mp hmultiple.symm
  rw [hlow] at hbelow
  rw [hhigh] at habove
  rw [Int.floor_eq_iff, hlow, hhigh]
  constructor
  · rcases hbelow.eq_or_lt with htie | hless
    · rw [htie]
      refine hmiddle (multiple - 1) ?_
      rw [← htie]
      push_cast
      ring
    · have hwhole : (2 * multiple - 1) * half + 1 ≤ digits := by exact_mod_cast hless
      have hwhole' : (2 * (multiple : ℚ) - 1) * half + 1 ≤ digits := by exact_mod_cast hwhole
      linarith
  · have hwhole : digits + 1 ≤ (2 * multiple + 1) * half := by exact_mod_cast habove
    have hwhole' : (digits : ℚ) + 1 ≤ (2 * (multiple : ℚ) + 1) * half := by exact_mod_cast hwhole
    linarith

/-- What is rounded to whole numbers is rounded to the same ones away from zero, unless it is
rounded down from the middle. -/
theorem floor_add_half_of_near {y : ℚ} (hnear : |y - digits| ≤ 1 / 2)
    (hmiddle : y ≠ digits + 1 / 2) : ⌊y + 1 / 2⌋ = digits := by
  obtain ⟨hnear₁, hnear₂⟩ := abs_le.mp hnear
  have hless : y < digits + 1 / 2 := lt_of_le_of_ne (by linarith) hmiddle
  rw [Int.floor_eq_iff]
  constructor <;> linarith

/-- The digits of a fraction with as many of them as are wanted, or more: how many more. -/
theorem exists_excess {y : ℚ} (h : (10 : ℚ) ^ (precision - 1) ≤ y) :
    ∃ excess, (10 : ℚ) ^ (precision - 1 + excess) ≤ y ∧ y < 10 ^ (precision - 1 + excess + 1) := by
  have hunit : (0 : ℚ) < 10 ^ (precision - 1) := by positivity
  obtain ⟨excess, hlow, hhigh⟩ := exists_nat_pow_near
    ((one_le_div hunit).mpr h) (by norm_num : (1 : ℚ) < 10)
  rw [le_div_iff₀ hunit, mul_comm, ← pow_add] at hlow
  rw [div_lt_iff₀ hunit, mul_comm, ← pow_add, ← Nat.add_assoc] at hhigh
  exact ⟨excess, hlow, hhigh⟩

/-- Rounding to whole numbers does not leave the range between two powers of ten. -/
theorem between_of_near {y : ℚ} {n : Nat} (hnear : |y - digits| ≤ 1 / 2)
    (hlow : (10 : ℚ) ^ n ≤ y) (hhigh : y < 10 ^ (n + 1)) :
    (10 : ℚ) ^ n ≤ digits ∧ (digits : ℚ) ≤ 10 ^ (n + 1) := by
  obtain ⟨hnear₁, hnear₂⟩ := abs_le.mp hnear
  have hlow' : ((10 ^ n : ℤ) : ℚ) < digits + 1 := by
    push_cast
    linarith
  have hhigh' : (digits : ℚ) < (10 ^ (n + 1) : ℤ) + 1 := by
    push_cast
    linarith
  have hlow'' : (10 ^ n : ℤ) ≤ digits := Int.lt_add_one_iff.mp (by exact_mod_cast hlow')
  have hhigh'' : digits ≤ 10 ^ (n + 1) := Int.lt_add_one_iff.mp (by exact_mod_cast hhigh')
  exact ⟨by exact_mod_cast hlow'', by exact_mod_cast hhigh''⟩

/-- The magnitude of a fraction, from that of its digits. -/
theorem scaled_bounds (places : Nat) {y : ℚ} {excess : Nat} (hprecision : 1 ≤ precision)
    (hlow : (10 : ℚ) ^ (precision - 1 + excess) ≤ y)
    (hhigh : y ≤ 10 ^ (precision - 1 + excess + 1)) :
    (10 : ℚ) ^ ((excess : ℤ) - places + precision - 1) ≤ |y / 10 ^ places| ∧
      |y / 10 ^ places| ≤ 10 ^ ((excess : ℤ) - places + precision) := by
  have hfirst : (excess : ℤ) - places + precision - 1 + places =
      (precision - 1 + excess : Nat) := by omega
  have hbeyond : (excess : ℤ) - places + precision + places =
      (precision - 1 + excess + 1 : Nat) := by omega
  have hnonneg : 0 ≤ y := le_trans (by positivity) hlow
  rw [abs_of_nonneg (by positivity), le_div_iff₀ (by positivity), div_le_iff₀ (by positivity),
    ← zpow_natCast 10 places, ← zpow_add₀ (by norm_num), ← zpow_add₀ (by norm_num), hfirst,
    hbeyond, zpow_natCast, zpow_natCast]
  exact ⟨hlow, hhigh⟩

theorem toSignificant_scaled {y : ℚ} {excess : Nat} (hprecision : 1 ≤ precision)
    (hlow : (10 : ℚ) ^ (precision - 1 + excess) ≤ y)
    (hhigh : y ≤ 10 ^ (precision - 1 + excess + 1)) :
    toSignificant precision (y / 10 ^ places) =
      ⌊y / 10 ^ excess + 1 / 2⌋ * 10 ^ ((excess : ℤ) - places) := by
  have hnonneg : 0 ≤ y := le_trans (by positivity) hlow
  have hunit : y / 10 ^ places / 10 ^ ((excess : ℤ) - places) = y / 10 ^ excess := by
    rw [zpow_sub₀ (by norm_num), zpow_natCast, zpow_natCast]
    field_simp
  obtain ⟨hlow', hhigh'⟩ := scaled_bounds places hprecision hlow hhigh
  rw [toSignificant_eq_atPlace hprecision hlow' hhigh', atPlace, hunit,
    nearestAway_of_nonneg (by positivity)]

/-- Half way between two multiples of the last wanted unit, seen on the digits. -/
theorem halfway_scaled {y : ℚ} {excess : Nat} (below : ℤ) (hprecision : 1 ≤ precision)
    (hlow : (10 : ℚ) ^ (precision - 1 + excess) ≤ y)
    (hhigh : y ≤ 10 ^ (precision - 1 + excess + 1))
    (hmiddle : y = (below + 1 / 2) * 10 ^ excess) : Halfway precision (y / 10 ^ places) := by
  have hnonneg : 0 ≤ y := le_trans (by positivity) hlow
  obtain ⟨hlow', hhigh'⟩ := scaled_bounds places hprecision hlow hhigh
  refine ⟨(excess : ℤ) - places, below, hlow', hhigh', ?_⟩
  rw [abs_of_nonneg (by positivity), hmiddle, zpow_sub₀ (by norm_num), zpow_natCast,
    zpow_natCast, mul_div_assoc]

/-- Of a positive fraction two roundings give what one gives. -/
theorem toSignificant_of_pos (hprecision : 1 ≤ precision)
    (hnear : |x * 10 ^ places - digits| ≤ 1 / 2)
    (hdigits : (10 : ℚ) ^ (precision - 1) ≤ x * 10 ^ places)
    (hup : x < digits / 10 ^ places → ¬Halfway precision (digits / 10 ^ places))
    (hdown : digits / 10 ^ places < x → ¬Halfway precision x) :
    toSignificant precision (digits / 10 ^ places) = toSignificant precision x := by
  have hunit : (0 : ℚ) < 10 ^ places := by positivity
  obtain ⟨excess, hlow, hhigh⟩ := exists_excess hdigits
  obtain ⟨hlow', hhigh'⟩ := between_of_near hnear hlow hhigh
  rw [lt_div_iff₀ hunit] at hup
  rw [div_lt_iff₀ hunit] at hdown
  -- From here on the fraction is known by its digits.
  obtain ⟨y, rfl⟩ : ∃ y, x = y / 10 ^ places := ⟨x * 10 ^ places, by field_simp⟩
  rw [div_mul_cancel₀ y hunit.ne'] at hnear hlow hhigh hup hdown
  rw [toSignificant_scaled hprecision hlow' hhigh',
    toSignificant_scaled hprecision hlow hhigh.le]
  congr 2
  cases excess with
  | zero =>
    -- The last digit that is kept is the last digit that is wanted.
    rw [pow_zero, div_one, div_one, floor_intCast_add_half]
    refine (floor_add_half_of_near hnear fun hmiddle => ?_).symm
    refine hdown (by linarith) (halfway_scaled digits hprecision hlow hhigh.le ?_)
    rw [hmiddle, pow_zero, mul_one]
  | succ excess =>
    have heven : (10 : ℚ) ^ (excess + 1) = 2 * (5 * 10 ^ excess : Nat) := by
      push_cast
      ring
    rw [heven]
    refine (floor_add_half_eq hnear (by positivity) fun below hmiddle => ?_).symm
    by_contra hless
    refine hup (not_le.mp hless) (halfway_scaled below hprecision hlow' hhigh' ?_)
    rw [hmiddle, heven]
    ring

/-- A first rounding that is not seen leaves the significant digits as they would be
without it. -/
theorem toSignificant_of_unseen (hprecision : 1 ≤ precision)
    (hnear : |x * 10 ^ places - digits| ≤ 1 / 2) (h : Unseen precision x digits places) :
    toSignificant precision (digits / 10 ^ places) = toSignificant precision x := by
  wlog hx : 0 ≤ x generalizing x digits
  · have hnear' : |-x * 10 ^ places - (-digits : ℤ)| ≤ 1 / 2 := by
      rw [Int.cast_neg, neg_mul, neg_sub_neg, abs_sub_comm]
      exact hnear
    have hopposite := this hnear' h.neg (by linarith)
    rw [Int.cast_neg, neg_div, toSignificant_neg, toSignificant_neg] at hopposite
    exact neg_injective hopposite
  rcases h with hexact | ⟨hdigits, hup, hdown⟩
  · rw [hexact]
  · rw [abs_of_nonneg hx] at hdigits
    have hpos : 0 < x := by
      refine hx.lt_of_ne fun hzero => ?_
      rw [← hzero, zero_mul] at hdigits
      exact absurd hdigits (not_le.mpr (by positivity))
    obtain ⟨excess, hlow, hhigh⟩ := exists_excess hdigits
    have hquotient : (0 : ℚ) ≤ digits / 10 ^ places :=
      div_nonneg (le_trans (by positivity) (between_of_near hnear hlow hhigh).1) (by positivity)
    rw [abs_of_nonneg hx, abs_of_nonneg hquotient] at hup hdown
    exact toSignificant_of_pos hprecision hnear hdigits (fun hless htie => hup ⟨hless, htie⟩)
      (fun hless htie => hdown ⟨hless, htie⟩)

end DerivedTelemetry.Rounding

namespace DerivedTelemetry.Checked

open Decimal Rounding

variable {a b result : Decimal} {precision : Nat}

theorem div_eq_ok (h : div a b precision = .ok result) :
    ¬b.isZero = true ∧
      ∃ quotient, a.div? b = some quotient ∧ quotient.roundSignificant precision = result := by
  rw [div] at h
  split at h
  · cases h
  · rename_i hb
    refine ⟨hb, ?_⟩
    cases hquotient : a.div? b with
    | none =>
      rw [hquotient] at h
      cases h
    | some quotient =>
      rw [hquotient] at h
      exact ⟨quotient, rfl, Except.ok.inj h⟩

/-- A representable quotient is only rounded to significant digits. -/
theorem exists_div (ha : a.WellFormed) (hb : ¬b.isZero = true) (hprecision : 1 ≤ precision)
    (h : Representable (a.value / b.value)) :
    ∃ result, div a b precision = .ok result ∧
      result.value = settled precision (a.value / b.value) := by
  obtain ⟨quotient, hquotient, hexact⟩ := exists_div? hb h
  have hfits : quotient.mantissa < capacity := ((ha.within 0).div? hquotient).mantissa_lt
  refine ⟨quotient.roundSignificant precision, ?_, ?_⟩
  · rw [div, if_neg hb, hquotient]
    rfl
  · rw [value_roundSignificant hprecision hfits, hexact]

/-- The value of a quotient is the nearest decimal rounded to significant digits.  Where the
first rounding is not seen and the result has room, that is the exact quotient rounded
once. -/
theorem div_rounds_nearest_decimal (ha : a.WellFormed) (hprecision : 1 ≤ precision)
    (h : div a b precision = .ok result) :
    ∃ digits places, IsNearestDecimal (a.value / b.value) digits places ∧
      result.value = settled precision (digits / 10 ^ places) ∧
      (Unseen precision (a.value / b.value) digits places →
        |toSignificant precision (a.value / b.value)| < capacity →
          result.value = toSignificant precision (a.value / b.value)) := by
  obtain ⟨hb, quotient, hquotient, rfl⟩ := div_eq_ok h
  obtain ⟨digits, places, hnearest, hvalue⟩ := exists_nearest_of_div? ha hb hquotient
  have hfits : quotient.mantissa < capacity := ((ha.within 0).div? hquotient).mantissa_lt
  have hresult : (quotient.roundSignificant precision).value =
      settled precision (digits / 10 ^ places) := by
    rw [value_roundSignificant hprecision hfits, hvalue]
  refine ⟨digits, places, hnearest, hresult, fun hunseen hroom => ?_⟩
  have honce := toSignificant_of_unseen hprecision hnearest.rounded.near hunseen
  rw [hresult, settled_of_lt (honce.symm ▸ hroom), honce]

/-- Half of seventeen is even at one place, and one digit of it is nine. -/
theorem div_rounds_nearest_decimal_half :
    (ofNat 17).WellFormed ∧ 1 ≤ 1 ∧ div (ofNat 17) (ofNat 2) 1 = .ok (ofNat 9) ∧
      (ofNat 9).value = toSignificant 1 ((ofNat 17).value / (ofNat 2).value) := by
  have hdividend : (ofNat 17).WellFormed := by decide +kernel
  have hquotient : div (ofNat 17) (ofNat 2) 1 = .ok (ofNat 9) := by decide +kernel
  have hvalue : value ⟨false, 85, 1⟩ = (ofNat 17).value / (ofNat 2).value := by
    rw [value_of_positive, value_ofNat, value_ofNat]
    norm_num
  obtain ⟨digits, places, hnearest, -, honce⟩ :=
    div_rounds_nearest_decimal hdividend (by decide) hquotient
  refine ⟨hdividend, by decide, hquotient, honce ?_ ?_⟩
  · exact Or.inl (hnearest.eq_of_representable ⟨⟨false, 85, 1⟩, by decide +kernel, hvalue⟩)
  · rw [value_ofNat, value_ofNat, toSignificant_eq_mul 0 9] <;>
      norm_num [capacity, twoTo]

/-- Each way in which two roundings can be told from one: going up to the middle, running out
of places, coming down from the middle, and having no room for the rounded quotient. -/
theorem div_rounded_twice :
    (∃ result, div ⟨false, 14999, 28⟩ (ofNat 1000) 1 = .ok result ∧
      result.value ≠ toSignificant 1 (value ⟨false, 14999, 28⟩ / (ofNat 1000).value)) ∧
    (∃ result, div ⟨false, 1, 28⟩ (ofNat 3) 10 = .ok result ∧
      result.value ≠ toSignificant 10 (value ⟨false, 1, 28⟩ / (ofNat 3).value)) ∧
    (∃ result, div ⟨false, 17000000000000000000000000001, 27⟩ (ofNat 2) 28 = .ok result ∧
      result.value ≠ toSignificant 28
        (value ⟨false, 17000000000000000000000000001, 27⟩ / (ofNat 2).value)) ∧
    (∃ result, div (ofNat 79228162514264337593543950335) one 1 = .ok result ∧
      result.value ≠ toSignificant 1
        ((ofNat 79228162514264337593543950335).value / one.value)) := by
  refine ⟨⟨⟨false, 2, 27⟩, by decide +kernel, ?_⟩, ⟨zero, by decide +kernel, ?_⟩,
    ⟨⟨false, 8500000000000000000000000000, 27⟩, by decide +kernel, ?_⟩,
    ⟨ofNat 79228162514264337593543950335, by decide +kernel, ?_⟩⟩
  · rw [value_of_positive, value_of_positive, value_ofNat,
      toSignificant_eq_mul (-27) 1] <;> norm_num
  · rw [value_zero, value_of_positive, value_ofNat,
      toSignificant_eq_mul (-38) 3333333333] <;> norm_num
  · rw [value_of_positive, value_of_positive, value_ofNat,
      toSignificant_eq_mul (-27) 8500000000000000000000000001] <;> norm_num
  · rw [value_one, value_ofNat, toSignificant_eq_mul 28 8] <;> norm_num

end DerivedTelemetry.Checked
