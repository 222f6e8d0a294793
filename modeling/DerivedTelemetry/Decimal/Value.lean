import DerivedTelemetry.Decimal.Quotient

/-!
# The value of a decimal

The rational number that a decimal stands for.  It forgets the scale and the sign of
zero.  Comparing two decimals by their crossed mantissas is comparing their values, so
that the order of decimals is total and transitive.  Taking zeros off the end of a
quotient keeps its value.
-/

namespace DerivedTelemetry.Decimal

/-- The number `± mantissa / 10 ^ scale` as a fraction. -/
def value (number : Decimal) : Rat := Rat.divInt number.signed (tenTo number.scale)

private theorem unit_pos (scale : Nat) : (0 : Int) < tenTo scale :=
  Int.ofNat_lt.2 (tenTo_pos scale)

private theorem unit_ne_zero (scale : Nat) : (tenTo scale : Int) ≠ 0 :=
  Int.ne_of_gt (unit_pos scale)

theorem le_iff_value_le {a b : Decimal} : a ≤ b ↔ a.value ≤ b.value := by
  change a.signed * tenTo b.scale ≤ b.signed * tenTo a.scale ↔ _
  rw [Rat.le_iff_sub_nonneg, value, value,
    Rat.divInt_sub_divInt _ _ (unit_ne_zero b.scale) (unit_ne_zero a.scale),
    Rat.divInt_nonneg_iff_of_pos_right (Int.mul_pos (unit_pos b.scale) (unit_pos a.scale))]
  omega

theorem lt_iff_value_lt {a b : Decimal} : a < b ↔ a.value < b.value := by
  rw [← Rat.not_le, ← le_iff_value_le]
  exact Int.not_le.symm

theorem same_iff_value_eq {a b : Decimal} : Same a b ↔ a.value = b.value :=
  (Rat.divInt_eq_divInt_iff (unit_ne_zero a.scale) (unit_ne_zero b.scale)).symm

theorem value_neg (number : Decimal) : (-number).value = -number.value := by
  have flipped : (-number).signed = -number.signed := by
    change (neg number).signed = _
    cases h : number.negative <;> simp [neg, signed, h]
  change Rat.divInt (-number).signed (tenTo number.scale) = _
  rw [flipped, value, Rat.neg_divInt]

theorem value_dropZeros (count : Nat) (number : Decimal) :
    (number.dropZeros count).value = number.value := by
  by_cases h : count ≤ number.scale ∧ number.mantissa % tenTo count = 0
  · have whole : number.mantissa = number.mantissa / tenTo count * tenTo count :=
      (Nat.div_mul_cancel (Nat.dvd_of_mod_eq_zero h.2)).symm
    have unit : tenTo number.scale = tenTo count * tenTo (number.scale - count) := by
      rw [← tenTo_add, Nat.add_sub_cancel' h.1]
    have magnitude : number.mantissa / tenTo count * tenTo number.scale =
        number.mantissa * tenTo (number.scale - count) := by
      rw [unit, ← Nat.mul_assoc, ← whole]
    have crossed : ((number.mantissa / tenTo count : Nat) : Int) * tenTo number.scale =
        (number.mantissa : Int) * tenTo (number.scale - count) := by
      exact_mod_cast magnitude
    rw [dropZeros, if_pos h, value, value,
      Rat.divInt_eq_divInt_iff (unit_ne_zero _) (unit_ne_zero _)]
    cases sign : number.negative
    · simpa only [signed, sign, Bool.false_eq_true, if_false] using crossed
    · simpa only [signed, sign, if_true, Int.neg_mul, Int.neg_inj] using crossed
  · rw [dropZeros, if_neg h]

theorem value_dropZeroWord (number : Decimal) :
    number.dropZeroWord.value = number.value := by
  rw [dropZeroWord]
  split
  · exact value_dropZeros 8 number
  · rfl

theorem value_trimmed (number : Decimal) : number.trimmed.value = number.value := by
  simp only [trimmed, value_dropZeros, value_dropZeroWord]

protected theorem le_trans {a b c : Decimal} (hab : a ≤ b) (hbc : b ≤ c) : a ≤ c :=
  le_iff_value_le.2 (Rat.le_trans (le_iff_value_le.1 hab) (le_iff_value_le.1 hbc))

protected theorem le_total (a b : Decimal) : a ≤ b ∨ b ≤ a := by
  simpa only [le_iff_value_le] using Rat.le_total

end DerivedTelemetry.Decimal
