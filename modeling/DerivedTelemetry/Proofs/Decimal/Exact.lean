import DerivedTelemetry.Decimal.Value
import DerivedTelemetry.Proofs.Decimal.Bounds
import Mathlib.Algebra.Order.Ring.Rat
import Mathlib.Tactic.FieldSimp
import Mathlib.Tactic.Linarith
import Mathlib.Tactic.Positivity
import Mathlib.Tactic.Ring

/-!
# Exact results

A fraction is representable when some decimal within the bounds has it as its value.
Fitting rounds digits away, but no more of them than it takes.  So when the exact result of
a sum or of a product is representable, only zeros are rounded away and the result is that
very number, whatever trailing zeros the operands carry.
-/

namespace DerivedTelemetry.Decimal

/-- Some decimal within the bounds has this value. -/
def Representable (x : ℚ) : Prop := ∃ number : Decimal, number.WellFormed ∧ number.value = x

variable {a b : Decimal} {negative : Bool} {mantissa scale : Nat}

theorem WellFormed.representable (h : a.WellFormed) : Representable a.value := ⟨a, h, rfl⟩

/-! ### Values as fractions -/

theorem cast_tenTo (n : Nat) : ((tenTo n : Nat) : ℚ) = 10 ^ n := by
  change ((10 ^ n : Nat) : ℚ) = 10 ^ n
  push_cast
  rfl

/-- A quotient in its whole part and what is left over. -/
theorem div_eq_quotient_add_rest (m : Nat) {n : Nat} (hn : 0 < n) :
    (m : ℚ) / n = (m / n : Nat) + (m % n : Nat) / n := by
  have hn' : (n : ℚ) ≠ 0 := by exact_mod_cast hn.ne'
  have hparts : (m : ℚ) = n * (m / n : Nat) + (m % n : Nat) := by
    exact_mod_cast (Nat.div_add_mod m n).symm
  rw [div_eq_iff hn', add_mul, div_mul_cancel₀ _ hn', mul_comm]
  exact hparts

theorem rest_lt_one (m : Nat) {n : Nat} (hn : 0 < n) : ((m % n : Nat) : ℚ) / n < 1 := by
  rw [div_lt_one (by exact_mod_cast hn)]
  exact_mod_cast Nat.mod_lt m hn

theorem rest_lt_half_iff (m : Nat) {n : Nat} (hn : 0 < n) :
    ((m % n : Nat) : ℚ) / n < 1 / 2 ↔ 2 * (m % n) < n := by
  rw [div_lt_div_iff₀ (by exact_mod_cast hn) (by norm_num), one_mul, mul_comm]
  exact_mod_cast Iff.rfl

theorem half_lt_rest_iff (m : Nat) {n : Nat} (hn : 0 < n) :
    (1 : ℚ) / 2 < (m % n : Nat) / n ↔ n < 2 * (m % n) := by
  rw [div_lt_div_iff₀ (by norm_num) (by exact_mod_cast hn), one_mul, mul_comm]
  exact_mod_cast Iff.rfl

/-- A sign as a factor. -/
def signFactor (negative : Bool) : ℚ := if negative then -1 else 1

theorem signFactor_bne (s t : Bool) : signFactor (s != t) = signFactor s * signFactor t := by
  cases s <;> cases t <;> norm_num [signFactor]

theorem abs_signFactor (negative : Bool) : |signFactor negative| = 1 := by
  cases negative <;> norm_num [signFactor]

theorem cast_signed (number : Decimal) :
    (number.signed : ℚ) = signFactor number.negative * number.mantissa := by
  cases h : number.negative <;> simp [signed, signFactor, h]

@[simp]
theorem natAbs_signed (number : Decimal) : number.signed.natAbs = number.mantissa := by
  cases h : number.negative <;> simp [signed, h]

theorem value_eq_signed (number : Decimal) :
    number.value = number.signed / 10 ^ number.scale := by
  rw [value, Rat.divInt_eq_div, Int.cast_natCast, cast_tenTo]

theorem value_eq (number : Decimal) :
    number.value = signFactor number.negative * (number.mantissa / 10 ^ number.scale) := by
  rw [value_eq_signed, cast_signed, mul_div_assoc]

theorem value_of_positive (mantissa scale : Nat) :
    value ⟨false, mantissa, scale⟩ = mantissa / 10 ^ scale := by
  rw [value_eq, signFactor, if_neg Bool.false_ne_true, one_mul]

theorem abs_value (number : Decimal) :
    |number.value| = number.mantissa / 10 ^ number.scale := by
  rw [value_eq, abs_mul, abs_signFactor, one_mul, abs_of_nonneg (by positivity)]

@[simp]
theorem value_ofNat (n : Nat) : (ofNat n).value = n := by
  rw [ofNat, value_of_positive, pow_zero, div_one]

@[simp]
theorem value_zero : zero.value = 0 := by rw [zero, value_ofNat, Nat.cast_zero]

@[simp]
theorem value_one : one.value = 1 := by rw [one, value_ofNat, Nat.cast_one]

theorem isZero_iff_value_eq_zero : a.isZero = true ↔ a.value = 0 := by
  rw [isZero, beq_iff_eq, ← abs_eq_zero, abs_value, div_eq_zero_iff, Nat.cast_eq_zero]
  simp

theorem value_eq_zero (h : a.isZero = true) : a.value = 0 := isZero_iff_value_eq_zero.mp h

/-- True is what is not zero in value. -/
theorem isTrue_eq : a.isTrue = decide (a.value ≠ 0) := by
  rw [isTrue, Bool.eq_iff_iff, Bool.not_eq_true', ← Bool.not_eq_true, isZero_iff_value_eq_zero,
    decide_eq_true_iff]

theorem value_ne_zero (h : ¬a.isZero = true) : a.value ≠ 0 :=
  fun hvalue => h (isZero_iff_value_eq_zero.mpr hvalue)

theorem mantissa_pos (h : ¬a.isZero = true) : 0 < a.mantissa :=
  Nat.pos_of_ne_zero fun hzero => h (by rw [isZero, hzero]; rfl)

theorem representable_zero : Representable 0 := ⟨zero, wellFormed_zero, value_zero⟩

/-- Numbers of one sign are equal when their crossed mantissas are. -/
theorem value_eq_of_crossed {m m' s s' : Nat} (h : m * tenTo s' = m' * tenTo s) :
    value ⟨negative, m, s⟩ = value ⟨negative, m', s'⟩ := by
  have hcrossed : (m : Int) * tenTo s' = m' * tenTo s := by exact_mod_cast h
  refine same_iff_value_eq.mp ?_
  cases negative <;> simpa [Same, crossed, signed] using hcrossed

theorem crossed_of_value_eq (h : a.value = b.value) :
    a.mantissa * tenTo b.scale = b.mantissa * tenTo a.scale := by
  have hcrossed : a.signed * tenTo b.scale = b.signed * tenTo a.scale := same_iff_value_eq.mpr h
  simpa [Int.natAbs_mul] using congrArg Int.natAbs hcrossed

/-! ### Fitting -/

theorem divHalfEven_mul_cancel (m : Nat) {n : Nat} (hn : 0 < n) : divHalfEven (m * n) n = m := by
  rw [divHalfEven, Nat.mul_div_cancel m hn, Nat.mul_mod_left]
  exact if_neg (by omega)

/-- A representable number has zeros enough at its end to be written with the scale of any
decimal that equals it, and then it is below the capacity. -/
theorem exists_mantissa_of_representable {number : Decimal} (hnumber : number.WellFormed)
    (h : number.value = value ⟨negative, mantissa, scale⟩) :
    ∃ kept, kept < capacity ∧ mantissa = kept * tenTo (scale - number.scale) := by
  have hcrossed : number.mantissa * tenTo scale = mantissa * tenTo number.scale :=
    crossed_of_value_eq h
  rcases Nat.le_total scale number.scale with hle | hle
  · refine ⟨mantissa, ?_, by rw [Nat.sub_eq_zero_of_le hle, tenTo_zero, Nat.mul_one]⟩
    have hgrown : number.mantissa = mantissa * tenTo (number.scale - scale) := by
      refine Nat.eq_of_mul_eq_mul_right (tenTo_pos scale) ?_
      rw [hcrossed, Nat.mul_assoc, ← tenTo_add, Nat.sub_add_cancel hle]
    calc
      mantissa ≤ mantissa * tenTo (number.scale - scale) :=
        Nat.le_mul_of_pos_right mantissa (tenTo_pos _)
      _ = number.mantissa := hgrown.symm
      _ < capacity := hnumber.mantissa_lt
  · refine ⟨number.mantissa, hnumber.mantissa_lt, ?_⟩
    refine Nat.eq_of_mul_eq_mul_right (tenTo_pos number.scale) ?_
    rw [← hcrossed, Nat.mul_assoc, ← tenTo_add, Nat.sub_add_cancel hle]

/-- The digits rounded away are no more than those that a shorter decimal can do without. -/
theorem exists_digitsToDrop? {kept scale count : Nat} (hkept : kept < capacity)
    (hleast : scale - maxScale ≤ count) (hcount : count ≤ scale) :
    ∃ k, k ≤ count ∧ digitsToDrop? (kept * tenTo count) scale = some k := by
  have hmem : count ∈ List.range' (scale - maxScale) (scale + 1 - (scale - maxScale)) :=
    List.mem_range'_1.mpr ⟨hleast, by omega⟩
  have hfits : divHalfEven (kept * tenTo count) (tenTo count) < capacity := by
    rwa [divHalfEven_mul_cancel kept (tenTo_pos count)]
  rw [digitsToDrop?]
  obtain ⟨k, hk⟩ := Option.isSome_iff_exists.mp (List.find?_isSome
    (p := fun k => decide (divHalfEven (kept * tenTo count) (tenTo k) < capacity)).mpr
      ⟨count, hmem, decide_eq_true hfits⟩)
  refine ⟨k, ?_, hk⟩
  by_contra hgreater
  have hskipped := (List.find?_range'_eq_some.mp hk).2.2 count hleast (by omega)
  rw [decide_eq_true hfits] at hskipped
  cases hskipped

/-- A representable number is fitted without rounding. -/
theorem exists_fit? (h : Representable (value ⟨negative, mantissa, scale⟩)) :
    ∃ number, fit? negative mantissa scale = some number ∧
      number.value = value ⟨negative, mantissa, scale⟩ := by
  obtain ⟨shortest, hshortest, hvalue⟩ := h
  obtain ⟨kept, hkept, rfl⟩ := exists_mantissa_of_representable hshortest hvalue
  have hleast : scale - maxScale ≤ scale - shortest.scale :=
    Nat.sub_le_sub_left hshortest.scale_le scale
  obtain ⟨k, hk, hdrop⟩ := exists_digitsToDrop? hkept hleast (Nat.sub_le _ _)
  have hzeros : kept * tenTo (scale - shortest.scale) =
      kept * tenTo (scale - shortest.scale - k) * tenTo k := by
    rw [Nat.mul_assoc, ← tenTo_add, Nat.sub_add_cancel hk]
  refine ⟨_, by rw [fit?, hdrop]; rfl, ?_⟩
  refine value_eq_of_crossed ?_
  rw [hzeros, divHalfEven_mul_cancel _ (tenTo_pos k), Nat.mul_assoc (kept * _), ← tenTo_add,
    Nat.add_sub_cancel' (by omega : k ≤ scale)]

/-! ### Sums, differences and products -/

theorem value_addAligned (a b : Decimal) :
    a.value + b.value =
      ((a.signed * tenTo (max a.scale b.scale - a.scale) +
        b.signed * tenTo (max a.scale b.scale - b.scale) : Int) : ℚ) /
          10 ^ max a.scale b.scale := by
  have haligned : ∀ c : Decimal, c.scale ≤ max a.scale b.scale →
      c.value = c.signed * 10 ^ (max a.scale b.scale - c.scale) / 10 ^ max a.scale b.scale := by
    intro c hle
    rw [value_eq_signed, div_eq_div_iff (by positivity) (by positivity), mul_assoc, ← pow_add,
      Nat.sub_add_cancel hle]
  rw [haligned a (le_max_left _ _), haligned b (le_max_right _ _), ← add_div]
  push_cast
  rw [cast_tenTo, cast_tenTo]

/-- The sign and the magnitude of a whole number, over a scale. -/
theorem value_ofSigned (total : Int) (scale : Nat) :
    value ⟨decide (total < 0), total.natAbs, scale⟩ = total / 10 ^ scale := by
  rw [value_eq_signed]
  congr 1
  rw [Int.cast_inj]
  by_cases hsign : total < 0
  · simp only [signed, hsign, decide_true, if_true]
    omega
  · simp only [signed, hsign, decide_false, Bool.false_eq_true, if_false]
    omega

theorem exists_add? (h : Representable (a.value + b.value)) :
    ∃ total, a.add? b = some total ∧ total.value = a.value + b.value := by
  rw [add?]
  split
  · rename_i hzero
    exact ⟨b, rfl, by rw [value_eq_zero hzero, zero_add]⟩
  · split
    · rename_i hzero
      exact ⟨a, rfl, by rw [value_eq_zero hzero, add_zero]⟩
    · rw [value_addAligned, ← value_ofSigned] at h
      rw [value_addAligned, ← value_ofSigned]
      exact exists_fit? h

theorem exists_sub? (h : Representable (a.value - b.value)) :
    ∃ change, a.sub? b = some change ∧ change.value = a.value - b.value := by
  rw [sub?]
  split
  · rename_i hzero
    have hb : b.value = 0 := value_eq_zero hzero
    refine ⟨_, rfl, ?_⟩
    split
    · rename_i hboth
      rw [value_eq_zero hboth, hb, sub_zero]
    · rw [hb, sub_zero]
  · rw [sub_eq_add_neg, ← value_neg] at h ⊢
    exact exists_add? h

theorem value_mul (a b : Decimal) :
    a.value * b.value =
      value ⟨a.negative != b.negative, a.mantissa * b.mantissa, a.scale + b.scale⟩ := by
  rw [value_eq a, value_eq b, value_eq]
  dsimp only
  rw [signFactor_bne, pow_add]
  push_cast
  ring

theorem value_mul_eq_zero (h : (a.isZero || b.isZero) = true) : a.value * b.value = 0 := by
  rcases Bool.or_eq_true_iff.mp h with ha | hb
  · rw [value_eq_zero ha, zero_mul]
  · rw [value_eq_zero hb, mul_zero]

theorem value_abs_of_isZero (h : a.isZero = true) : a.abs.value = a.value := by
  rw [value_eq_zero h]
  exact value_eq_zero (a := a.abs) h

/-- A product of two words with so many digits after the point is no decimal: it would
need twenty zeros at its end. -/
theorem not_representable_of_words (ha : ¬a.isZero = true) (hb : ¬b.isZero = true)
    (hwords : a.mantissa < wordCapacity ∧ b.mantissa < wordCapacity)
    (hscale : wordProductScale < a.scale + b.scale) :
    ¬Representable (a.value * b.value) := by
  intro h
  rw [value_mul] at h
  obtain ⟨number, hnumber, hvalue⟩ := h
  obtain ⟨kept, -, hproduct⟩ := exists_mantissa_of_representable hnumber hvalue
  have hkept : 0 < kept := by
    have hpos : 0 < a.mantissa * b.mantissa := Nat.mul_pos (mantissa_pos ha) (mantissa_pos hb)
    rw [hproduct] at hpos
    exact Nat.pos_of_mul_pos_right hpos
  have hzeros : 20 ≤ a.scale + b.scale - number.scale := by
    have hbound : number.scale ≤ 28 := hnumber.scale_le
    have hgreat : 47 < a.scale + b.scale := hscale
    omega
  have hless : tenTo 20 < wordCapacity * wordCapacity := by
    calc
      tenTo 20 ≤ tenTo (a.scale + b.scale - number.scale) := tenTo_le_tenTo hzeros
      _ ≤ kept * tenTo (a.scale + b.scale - number.scale) := Nat.le_mul_of_pos_left _ hkept
      _ = a.mantissa * b.mantissa := hproduct.symm
      _ < wordCapacity * wordCapacity := Nat.mul_lt_mul'' hwords.1 hwords.2
  exact absurd hless (by decide +kernel)

theorem exists_mul? (h : Representable (a.value * b.value)) :
    ∃ product, a.mul? b = some product ∧ product.value = a.value * b.value := by
  rw [mul?]
  split
  · rename_i hzero
    exact ⟨zero, rfl, by rw [value_zero, value_mul_eq_zero hzero]⟩
  · rename_i hnonzero
    obtain ⟨ha, hb⟩ := not_or.mp (mt Bool.or_eq_true_iff.mpr hnonzero)
    obtain ⟨product, hproduct, hvalue⟩ := exists_fit? (value_mul a b ▸ h)
    rw [← value_mul] at hvalue
    dsimp only
    split
    · rename_i hwords
      rw [if_neg fun hscale => not_representable_of_words ha hb hwords hscale h, hproduct]
      refine ⟨_, rfl, ?_⟩
      dsimp only
      split
      · rename_i hvanished
        rw [value_abs_of_isZero hvanished, hvalue]
      · exact hvalue
    · exact ⟨product, hproduct, hvalue⟩

end DerivedTelemetry.Decimal
