import DerivedTelemetry.Decimal.Quotient
import DerivedTelemetry.Decimal.Rounding

/-!
# Bounds of results

Fitting brings every sum and every product back into the bounds of a representable number.
Two results are not fitted.  An operand beside a zero is handed on as it stands, and so is
the scale of a quotient that comes out even.  And rounding to significant digits pads a short
mantissa with zeros, each of which is one more digit after the point.

So the mantissa stays below its bound throughout, but the scale does not.  What a number may
exceed the greatest scale by is kept as a parameter: only rounding to significant digits adds
to it, and less than the number of digits that it rounds to.
-/

namespace DerivedTelemetry.Decimal

/-- The mantissa fits, and there are at most `extra` digits too many after the point. -/
structure Within (extra : Nat) (number : Decimal) : Prop where
  mantissa_lt : number.mantissa < capacity
  scale_le : number.scale ≤ maxScale + extra

variable {extra : Nat} {a b number value : Decimal}

theorem within_zero_iff : number.Within 0 ↔ number.WellFormed :=
  ⟨fun h => ⟨h.mantissa_lt, h.scale_le⟩, fun h => ⟨h.mantissa_lt, h.scale_le⟩⟩

theorem WellFormed.within (h : number.WellFormed) (extra : Nat) : number.Within extra :=
  ⟨h.mantissa_lt, Nat.le_add_right_of_le h.scale_le⟩

theorem Within.mono {greater : Nat} (h : number.Within extra) (hle : extra ≤ greater) :
    number.Within greater :=
  ⟨h.mantissa_lt, Nat.le_trans h.scale_le (Nat.add_le_add_left hle maxScale)⟩

/-- A number with no greater mantissa and no greater scale is within the same bounds. -/
theorem Within.of_le (h : number.Within extra) (hmantissa : value.mantissa ≤ number.mantissa)
    (hscale : value.scale ≤ number.scale) : value.Within extra :=
  ⟨Nat.lt_of_le_of_lt hmantissa h.mantissa_lt, Nat.le_trans hscale h.scale_le⟩

theorem wellFormed_ofNat {n : Nat} (h : n < capacity) : (ofNat n).WellFormed :=
  ⟨h, Nat.zero_le maxScale⟩

theorem wellFormed_zero : zero.WellFormed := by decide +kernel

theorem wellFormed_one : one.WellFormed := by decide +kernel

theorem wellFormed_ofBool (truth : Bool) : (ofBool truth).WellFormed := by
  cases truth
  · exact wellFormed_zero
  · exact wellFormed_one

theorem Within.neg (h : number.Within extra) : (-number).Within extra := ⟨h.1, h.2⟩

theorem Within.abs (h : number.Within extra) : number.abs.Within extra := ⟨h.1, h.2⟩

/-! ### Rounded quotients -/

/-- A remainder is left over, so that the quotient is less than what was divided. -/
theorem div_lt_of_mod_pos {m n : Nat} (hn : 0 < n) (hrest : 0 < m % n) : m / n < m := by
  have hwhole : m / n ≤ n * (m / n) := Nat.le_mul_of_pos_left (m / n) hn
  have hparts : n * (m / n) + m % n = m := Nat.div_add_mod m n
  omega

theorem divHalfUp_le (m : Nat) {n : Nat} (hn : 0 < n) : divHalfUp m n ≤ m := by
  rw [divHalfUp]
  split
  · exact div_lt_of_mod_pos hn (by omega)
  · exact Nat.div_le_self m n

theorem div_le_divHalfEven (m n : Nat) : m / n ≤ divHalfEven m n := by
  rw [divHalfEven]
  split <;> omega

theorem divHalfEven_le_succ (m n : Nat) : divHalfEven m n ≤ m / n + 1 := by
  rw [divHalfEven]
  split <;> omega

theorem divHalfEven_mono {m m' : Nat} (h : m ≤ m') (n : Nat) :
    divHalfEven m n ≤ divHalfEven m' n := by
  rcases Nat.lt_or_eq_of_le (Nat.div_le_div_right (c := n) h) with hless | hsame
  · calc
      divHalfEven m n ≤ m / n + 1 := divHalfEven_le_succ m n
      _ ≤ m' / n := hless
      _ ≤ divHalfEven m' n := div_le_divHalfEven m' n
  · -- Between the same two whole numbers the remainders decide.
    have hrest : m % n ≤ m' % n := by
      have hm : n * (m / n) + m % n = m := Nat.div_add_mod m n
      have hm' : n * (m' / n) + m' % n = m' := Nat.div_add_mod m' n
      rw [hsame] at hm
      omega
    rw [divHalfEven, divHalfEven, hsame]
    split <;> split <;> omega

theorem tenTo_le_tenTo {m n : Nat} (h : m ≤ n) : tenTo m ≤ tenTo n :=
  Nat.pow_le_pow_right (by decide) h

theorem quotientAt_mono (numerator denominator : Nat) {scale greater : Nat}
    (h : scale ≤ greater) :
    quotientAt numerator denominator scale ≤ quotientAt numerator denominator greater :=
  divHalfEven_mono (Nat.mul_le_mul_left numerator (tenTo_le_tenTo h)) denominator

/-! ### Sums and products -/

theorem wellFormed_of_fit? {negative : Bool} {mantissa scale : Nat}
    (h : fit? negative mantissa scale = some value) : value.WellFormed := by
  obtain ⟨k, hk, rfl⟩ := Option.map_eq_some_iff.mp h
  rw [digitsToDrop?] at hk
  have hfits := List.find?_some hk
  refine ⟨of_decide_eq_true hfits, ?_⟩
  have hleast : scale - maxScale ≤ k := (List.mem_range'_1.mp (List.mem_of_find?_eq_some hk)).1
  change scale - k ≤ maxScale
  omega

/-- A sum is fitted, unless it is one of its operands. -/
theorem Within.add? (ha : a.Within extra) (hb : b.Within extra) (h : a.add? b = some value) :
    value.Within extra := by
  rw [Decimal.add?] at h
  split at h
  · obtain rfl := Option.some.inj h
    exact hb
  · split at h
    · obtain rfl := Option.some.inj h
      exact ha
    · exact (wellFormed_of_fit? h).within extra

theorem Within.sub? (ha : a.Within extra) (hb : b.Within extra) (h : a.sub? b = some value) :
    value.Within extra := by
  rw [Decimal.sub?] at h
  split at h
  · obtain rfl := Option.some.inj h
    split
    · exact hb
    · exact ha
  · exact ha.add? hb.neg h

/-- A product is always fitted, whatever its factors are. -/
theorem wellFormed_of_mul? (h : a.mul? b = some value) : value.WellFormed := by
  rw [mul?] at h
  split at h
  · obtain rfl := Option.some.inj h
    exact wellFormed_zero
  · dsimp only at h
    split at h
    · split at h
      · obtain rfl := Option.some.inj h
        exact wellFormed_zero
      · obtain ⟨product, hproduct, rfl⟩ := Option.map_eq_some_iff.mp h
        split
        · exact ⟨(wellFormed_of_fit? hproduct).1, (wellFormed_of_fit? hproduct).2⟩
        · exact wellFormed_of_fit? hproduct
    · exact wellFormed_of_fit? h

/-! ### Quotients -/

theorem Within.dropZeros (h : number.Within extra) (count : Nat) :
    (number.dropZeros count).Within extra := by
  rw [Decimal.dropZeros]
  split
  · exact h.of_le (Nat.div_le_self _ _) (Nat.sub_le _ _)
  · exact h

theorem Within.dropZeroWord (h : number.Within extra) : number.dropZeroWord.Within extra := by
  rw [Decimal.dropZeroWord]
  split
  · exact h.dropZeros 8
  · exact h

theorem Within.trimmed (h : number.Within extra) : number.trimmed.Within extra :=
  ((h.dropZeroWord.dropZeroWord.dropZeroWord.dropZeros 4).dropZeros 2).dropZeros 1

/-- The digits of a long division fit, at every scale up to the greatest one at which they
do. -/
theorem quotientAt_lt_of_scale {numerator denominator greatest scale : Nat}
    (h : quotientScale? numerator denominator = some greatest) (hscale : scale ≤ greatest) :
    quotientAt numerator denominator scale < capacity ∧ scale ≤ maxScale := by
  have hmem : greatest ∈ List.range (maxScale + 1) :=
    List.mem_reverse.mp (List.mem_of_find?_eq_some h)
  have hfits : quotientAt numerator denominator greatest < capacity :=
    of_decide_eq_true (List.find?_some (p := fun scale =>
      decide (quotientAt numerator denominator scale < capacity)) h)
  refine ⟨Nat.lt_of_le_of_lt (quotientAt_mono numerator denominator hscale) hfits, ?_⟩
  exact Nat.le_trans hscale (Nat.le_of_lt_succ (List.mem_range.mp hmem))

/-- A quotient that comes out even has the scale of the dividend at most, and any other one
is representable.  The divisor does not matter. -/
theorem Within.div? (ha : a.Within extra) (h : a.div? b = some value) : value.Within extra := by
  rw [Decimal.div?] at h
  split at h
  · obtain rfl := Option.some.inj h
    exact wellFormed_zero.within extra
  · dsimp only at h
    split at h
    · obtain rfl := Option.some.inj h
      exact ha.of_le (Nat.div_le_self _ _) (Nat.sub_le _ _)
    · obtain ⟨greatest, hgreatest, rfl⟩ := Option.map_eq_some_iff.mp h
      obtain ⟨hmantissa, hscale⟩ := quotientAt_lt_of_scale hgreatest (Nat.min_le_left greatest
        ((evenScale? a b).getD greatest))
      exact Within.trimmed ⟨hmantissa, Nat.le_add_right_of_le hscale⟩

/-! ### Rounding -/

theorem digitCount_pos (n : Nat) : 0 < digitCount n := Nat.length_toDigits_pos

theorem lt_tenTo_digitCount (n : Nat) : n < tenTo (digitCount n) :=
  (Nat.length_toDigits_le_iff (by decide) (digitCount_pos n)).mp (Nat.le_refl _)

/-- Every mantissa of so many digits fits. -/
theorem tenTo_maxScale_lt : tenTo maxScale < capacity := by decide +kernel

/-- Padding brings no digit more than there are significant ones, and at least one was there
before. -/
theorem Within.roundSignificant (h : number.Within extra) {precision : Nat}
    (hprecision : precision ≤ maxScale) :
    (number.roundSignificant precision).Within (extra + (precision - 1)) := by
  have hmore : extra ≤ extra + (precision - 1) := Nat.le_add_right extra _
  rw [Decimal.roundSignificant]
  dsimp only
  split
  · exact h.mono hmore
  · split
    · exact wellFormed_zero.within _
    · split
      · rename_i hdigits
        have hpadded : number.mantissa * tenTo (precision - digitCount number.mantissa) <
            tenTo precision := by
          calc
            number.mantissa * tenTo (precision - digitCount number.mantissa)
              < tenTo (digitCount number.mantissa) *
                  tenTo (precision - digitCount number.mantissa) :=
                Nat.mul_lt_mul_of_pos_right (lt_tenTo_digitCount _) (tenTo_pos _)
            _ = tenTo precision := by rw [← tenTo_add, Nat.add_sub_cancel' hdigits]
        constructor
        · exact Nat.lt_trans (Nat.lt_of_lt_of_le hpadded (tenTo_le_tenTo hprecision))
            tenTo_maxScale_lt
        · have hone : 0 < digitCount number.mantissa := digitCount_pos _
          have hscale : number.scale ≤ maxScale + extra := h.scale_le
          dsimp only
          omega
      · split
        · exact (h.of_le (divHalfUp_le _ (tenTo_pos _)) (Nat.sub_le _ _)).mono hmore
        · split
          · rename_i hwhole
            exact ⟨hwhole, Nat.zero_le _⟩
          · exact h.mono hmore

theorem Within.truncate (h : number.Within extra) : number.truncate.Within extra :=
  h.of_le (Nat.div_le_self _ _) (Nat.zero_le _)

/-- A fraction that was dropped leaves room for one more. -/
theorem Within.awayFromZero_truncate (h : number.Within extra)
    (hfraction : number.hasFraction = true) : number.truncate.awayFromZero.Within extra := by
  refine h.of_le ?_ (Nat.zero_le _)
  exact div_lt_of_mod_pos (tenTo_pos number.scale) (Nat.pos_of_ne_zero (bne_iff_ne.mp hfraction))

theorem Within.floor (h : number.Within extra) : number.floor.Within extra := by
  rw [Decimal.floor]
  split
  · rename_i hdown
    exact h.awayFromZero_truncate (Bool.and_eq_true_iff.mp hdown).1
  · exact h.truncate

theorem Within.ceil (h : number.Within extra) : number.ceil.Within extra := by
  rw [Decimal.ceil]
  split
  · rename_i hup
    exact h.awayFromZero_truncate (Bool.and_eq_true_iff.mp hup).1
  · exact h.truncate

theorem Within.round (h : number.Within extra) : number.round.Within extra := by
  rw [Decimal.round]
  split
  · exact h.truncate
  · exact h.of_le (divHalfUp_le _ (tenTo_pos _)) (Nat.zero_le _)

theorem Within.lesser (ha : a.Within extra) (hb : b.Within extra) :
    (a.lesser b).Within extra := by
  rw [Decimal.lesser]
  split
  · exact hb
  · exact ha

theorem Within.greater (ha : a.Within extra) (hb : b.Within extra) :
    (a.greater b).Within extra := by
  rw [Decimal.greater]
  split
  · exact ha
  · exact hb

end DerivedTelemetry.Decimal
