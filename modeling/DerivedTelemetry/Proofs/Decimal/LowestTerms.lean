import DerivedTelemetry.Proofs.Decimal.Exact
import Mathlib.Data.Nat.Prime.Basic

/-!
# Lowest terms and powers

Which powers of a number are representable is read off its lowest terms, where no zero can
be taken off the end any more.  A power of a mantissa that is no multiple of ten is none
either, so powers stay in lowest terms, and in lowest terms a number is representable only
as it stands.

Mantissa and scale grow with the exponent.  Hence with a power all lower ones are
representable.
-/

namespace DerivedTelemetry.Decimal

variable {a : Decimal}

/-- No zero can be taken off the end any more. -/
def IsLowest (number : Decimal) : Prop := number.scale = 0 ∨ ¬10 ∣ number.mantissa

theorem value_stripZeros (negative : Bool) (mantissa scale : Nat) :
    (stripZeros negative mantissa scale).value = value ⟨negative, mantissa, scale⟩ := by
  induction scale generalizing mantissa with
  | zero => rfl
  | succ scale ih =>
    rw [stripZeros]
    split
    · rename_i hzero
      rw [ih]
      refine value_eq_of_crossed ?_
      have htens : mantissa / 10 * 10 = mantissa :=
        Nat.div_mul_cancel (Nat.dvd_of_mod_eq_zero hzero)
      rw [tenTo_succ, Nat.mul_comm (tenTo scale), ← Nat.mul_assoc, htens]
    · rfl

theorem isLowest_stripZeros (negative : Bool) (mantissa scale : Nat) :
    (stripZeros negative mantissa scale).IsLowest := by
  induction scale generalizing mantissa with
  | zero => exact Or.inl rfl
  | succ scale ih =>
    rw [stripZeros]
    split
    · exact ih _
    · rename_i hdigit
      exact Or.inr (mt Nat.mod_eq_zero_of_dvd hdigit)

theorem value_normalized (number : Decimal) : number.normalized.value = number.value :=
  value_stripZeros _ _ _

theorem isLowest_normalized (number : Decimal) : number.normalized.IsLowest :=
  isLowest_stripZeros _ _ _

/-- In lowest terms a number is representable only as it stands. -/
theorem IsLowest.wellFormed (h : a.IsLowest) (hvalue : Representable a.value) :
    a.WellFormed := by
  obtain ⟨number, hnumber, heq⟩ := hvalue
  obtain ⟨kept, hkept, hmantissa⟩ := exists_mantissa_of_representable hnumber heq
  have hscale : a.scale ≤ number.scale := by
    by_contra hgreater
    rcases h with hzero | hdigit
    · omega
    · refine hdigit (hmantissa ▸ Dvd.dvd.mul_left ?_ kept)
      rw [show a.scale - number.scale = a.scale - number.scale - 1 + 1 by omega, tenTo_succ]
      exact Nat.dvd_mul_left 10 _
  rw [Nat.sub_eq_zero_of_le hscale, tenTo_zero, Nat.mul_one] at hmantissa
  exact ⟨hmantissa ▸ hkept, Nat.le_trans hscale hnumber.scale_le⟩

/-- The power of a number, digit for digit. -/
def exactPower (number : Decimal) (n : Nat) : Decimal :=
  ⟨number.negative && n % 2 == 1, number.mantissa ^ n, number.scale * n⟩

theorem signFactor_pow (negative : Bool) (n : Nat) :
    signFactor negative ^ n = signFactor (negative && n % 2 == 1) := by
  cases negative
  · simp [signFactor]
  · rcases Nat.even_or_odd n with heven | hodd
    · simp [signFactor, heven.neg_one_pow, Nat.even_iff.mp heven]
    · simp [signFactor, hodd.neg_one_pow, Nat.odd_iff.mp hodd]

theorem value_exactPower (number : Decimal) (n : Nat) :
    (number.exactPower n).value = number.value ^ n := by
  rw [value_eq, value_eq number, mul_pow, div_pow, signFactor_pow, ← pow_mul]
  simp only [exactPower, Nat.cast_pow]

theorem IsLowest.exactPower (h : a.IsLowest) (n : Nat) : (a.exactPower n).IsLowest := by
  rcases h with hzero | hdigit
  · left
    rw [Decimal.exactPower, hzero, Nat.zero_mul]
  · right
    intro hten
    -- Ten is a product of two primes, each of which would divide the mantissa itself.
    have htwo : 2 ∣ a.mantissa :=
      Nat.prime_two.dvd_of_dvd_pow (Nat.dvd_trans (by decide) hten)
    have hfive : 5 ∣ a.mantissa :=
      Nat.prime_five.dvd_of_dvd_pow (Nat.dvd_trans (by decide) hten)
    exact hdigit (Nat.Coprime.mul_dvd_of_dvd_of_dvd (by decide) htwo hfive)

/-- When a power of a decimal is representable, so are all lower ones. -/
theorem representable_pow_of_le {lower n : Nat} (hle : lower ≤ n)
    (h : Representable (a.value ^ n)) : Representable (a.value ^ lower) := by
  rw [← value_normalized] at h ⊢
  rcases Nat.eq_zero_or_pos a.normalized.mantissa with hzero | hpos
  · have hvalue : a.normalized.value = 0 :=
      value_eq_zero (by rw [isZero, hzero]; rfl)
    rcases Nat.eq_zero_or_pos lower with rfl | hlower
    · exact ⟨one, wellFormed_one, by rw [value_one, pow_zero]⟩
    · rw [hvalue, zero_pow hlower.ne']
      exact representable_zero
  · rw [← value_exactPower] at h ⊢
    have hpower : (a.normalized.exactPower n).WellFormed :=
      ((isLowest_normalized a).exactPower n).wellFormed h
    refine WellFormed.representable ⟨?_, ?_⟩
    · exact Nat.lt_of_le_of_lt (Nat.pow_le_pow_right hpos hle) hpower.mantissa_lt
    · exact Nat.le_trans (Nat.mul_le_mul_left _ hle) hpower.scale_le

end DerivedTelemetry.Decimal
