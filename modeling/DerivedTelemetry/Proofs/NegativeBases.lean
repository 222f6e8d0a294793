import DerivedTelemetry.Proofs.WholePowers

/-!
# Negative bases

A power of a negative number is refused for its sign unless the exponent is a whole number
within the bound.  All other faults of a power are about something else: a result that is out
of range, a zero that cannot be inverted, a double that is not finite.

The message calls the exponent fractional.  That is not so for a whole number beyond the
bound, to which the same fault belongs.  One such number escapes it: the least word, which has
no absolute value among words and is therefore not found to be beyond the bound.
-/

namespace DerivedTelemetry.Math

open Decimal

variable {base exponent : Decimal} {result : Except Fault Decimal}

/-- If there is a fault, it is not the sign of a base. -/
def Unblamed (result : Except Fault Decimal) : Prop :=
  ∀ base exponent, result ≠ .error (.arithmetic (.negativeBase base exponent))

theorem Unblamed.bind {next : Decimal → Except Fault Decimal} (h : Unblamed result)
    (hnext : ∀ value, Unblamed (next value)) : Unblamed (result >>= next) := by
  cases result with
  | ok value => exact hnext value
  | error fault => exact h

theorem unblamed_ok (value : Decimal) : Unblamed (.ok value) := by
  intro base exponent h
  cases h

theorem unblamed_error {cause : ArithmeticFault}
    (h : ∀ base exponent, cause ≠ .negativeBase base exponent) :
    Unblamed (.error (.arithmetic cause)) := by
  intro base exponent heq
  cases heq
  exact h base exponent rfl

theorem unblamed_orFault (value : Option Decimal) {cause : ArithmeticFault}
    (h : ∀ base exponent, cause ≠ .negativeBase base exponent) :
    Unblamed (Checked.orFault value cause) := by
  cases value with
  | some number => exact unblamed_ok number
  | none => exact unblamed_error h

/-! ### Faults of powers -/

theorem unblamed_powerStep (a b : Decimal) : Unblamed (powerStep a b) :=
  unblamed_orFault _ (by simp)

theorem unblamed_powerLoop (result factor : Decimal) (exponent : Nat) :
    Unblamed (powerLoop result factor exponent) := by
  induction exponent using Nat.strongRecOn generalizing result factor with
  | ind exponent ih =>
    obtain ⟨half, rfl | rfl⟩ := exponent.even_or_odd'
    · rcases Nat.eq_zero_or_pos half with rfl | hhalf
      · rw [Nat.mul_zero, powerLoop_zero]
        exact unblamed_ok result
      · rw [powerLoop_even _ _ hhalf]
        exact (unblamed_powerStep _ _).bind fun square => ih half (by omega) _ square
    · rcases Nat.eq_zero_or_pos half with rfl | hhalf
      · rw [Nat.mul_zero, Nat.zero_add, powerLoop_one]
        exact unblamed_powerStep _ _
      · rw [powerLoop_odd _ _ hhalf]
        exact (unblamed_powerStep _ _).bind fun product =>
          (unblamed_powerStep _ _).bind fun square => ih half (by omega) product square

theorem unblamed_wholePower (base : Decimal) (n : ℤ) : Unblamed (wholePower base n) := by
  rw [wholePower]
  split
  · exact unblamed_error (by simp)
  · refine (unblamed_powerLoop _ _ _).bind fun power => ?_
    split
    · exact unblamed_orFault _ (by simp)
    · exact unblamed_ok power

theorem unblamed_ofDouble (function : String) (x : Float) :
    Unblamed (Checked.ofDouble function x) := by
  rw [Checked.ofDouble]
  split
  · exact unblamed_error (by simp)
  · exact unblamed_orFault _ (by simp)

/-! ### Signs and exponents -/

/-- An exponent passes for no whole one if it is none, or is one beyond the bound whose absolute
value is a word too. -/
theorem wholeExponent?_eq_none_iff :
    wholeExponent? exponent = none ↔
      ∀ n : ℤ, exponent.value = n → greatestWholeExponent < n.natAbs ∧ n ≠ -2 ^ 63 := by
  rw [Option.eq_none_iff_forall_ne_some]
  simp only [ne_eq, wholeExponent?_eq_some_iff, not_and, not_or, Nat.not_le]

theorem isBelowZero_iff : base.isBelowZero = true ↔ base.value < 0 := by
  have hmagnitude : (0 : ℚ) ≤ base.mantissa / 10 ^ base.scale := by positivity
  rw [isBelowZero, Bool.and_eq_true, Bool.not_eq_true', ← Bool.not_eq_true,
    isZero_iff_value_eq_zero, value_eq]
  cases base.negative
  · rw [signFactor, if_neg Bool.false_ne_true, one_mul]
    simpa using hmagnitude
  · rw [signFactor, if_pos rfl, neg_one_mul, neg_lt_zero, neg_eq_zero]
    simp [lt_iff_le_and_ne, hmagnitude, eq_comm]

/-! ### Refused powers -/

/-- A power is refused for the sign of its base exactly when the base is below zero and the
exponent is neither a whole number within the bound nor the least word. -/
theorem pow_negativeBase_iff (base exponent b e : Decimal) :
    pow [base, exponent] = .error (.arithmetic (.negativeBase b e)) ↔
      (b = base ∧ e = exponent) ∧ base.value < 0 ∧
        ∀ n : ℤ, exponent.value = n → greatestWholeExponent < n.natAbs ∧ n ≠ -2 ^ 63 := by
  change Math.power base exponent = _ ↔ _
  rw [← isBelowZero_iff, ← wholeExponent?_eq_none_iff, Math.power]
  cases hexponent : wholeExponent? exponent with
  | some n => simp [unblamed_wholePower base n b e]
  | none =>
    dsimp only
    by_cases hbase : base.isBelowZero = true
    · rw [if_pos hbase]
      simp [hbase, eq_comm]
    · rw [if_neg hbase]
      simp [hbase, unblamed_ofDouble "pow" _ b e]

/-- Minus one has a power to the first whole number beyond the bound, which is minus one. -/
theorem negativeBase_of_whole_exponent :
    let base : Decimal := ⟨true, 1, 0⟩
    let exponent : Decimal := ofNat (greatestWholeExponent + 1)
    (base.WellFormed ∧ exponent.WellFormed) ∧ exponent.value = (1025 : ℤ) ∧
      pow [base, exponent] = .error (.arithmetic (.negativeBase base exponent)) := by
  refine ⟨⟨by decide +kernel, by decide +kernel⟩, ?_, by decide +kernel⟩
  rw [value_ofNat]
  norm_num [greatestWholeExponent]

end DerivedTelemetry.Math
