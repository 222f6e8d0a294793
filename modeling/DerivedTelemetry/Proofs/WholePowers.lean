import DerivedTelemetry.Function.Math
import DerivedTelemetry.Proofs.Decimal.LowestTerms
import DerivedTelemetry.Proofs.Decimal.Quotients
import Mathlib.Algebra.Group.Nat.Even
import Mathlib.Tactic.NormNum

/-!
# Whole powers

A whole power is computed by squaring, and each multiplication may round or overflow.  None
of them does when the power itself is representable: the loop multiplies lower powers of the
base only, since it does not square once more than it needs to, and with a power all lower
ones are representable.

A negative power is the reciprocal of a positive one.  It is exact when the positive power
is representable as well, but not otherwise: a half has few digits, its powers have many, and
the reciprocals of these have few again.
-/

namespace DerivedTelemetry.Math

open Decimal

/-- A product that is computed without rounding. -/
structure IsExactProduct (a b product : Decimal) : Prop where
  computed : a.mul? b = some product
  value_eq : product.value = a.value * b.value

/-- A run of the loop that raises to a power by squaring, in which every product is exact.
The bits of the exponent come from the low end, and the factor is squared as long as there
are higher ones. -/
inductive ExactRun : (result factor : Decimal) → (exponent : Nat) → (power : Decimal) → Prop
  | zero {result factor : Decimal} : ExactRun result factor 0 result
  | one {result factor power : Decimal} (hproduct : IsExactProduct result factor power) :
      ExactRun result factor 1 power
  | even {result factor square power : Decimal} {half : Nat} (hhalf : 0 < half)
      (hsquare : IsExactProduct factor factor square)
      (hrest : ExactRun result square half power) : ExactRun result factor (2 * half) power
  | odd {result factor product square power : Decimal} {half : Nat} (hhalf : 0 < half)
      (hproduct : IsExactProduct result factor product)
      (hsquare : IsExactProduct factor factor square)
      (hrest : ExactRun product square half power) : ExactRun result factor (2 * half + 1) power

variable {base result factor product power : Decimal} {half exponent : Nat}

/-! ### The loop, bit by bit -/

theorem powerLoop_zero (result factor : Decimal) : powerLoop result factor 0 = .ok result := by
  rw [powerLoop]
  rfl

theorem powerLoop_one (result factor : Decimal) :
    powerLoop result factor 1 = powerStep result factor := by
  rw [powerLoop]
  cases powerStep result factor <;> rfl

theorem powerLoop_even (result factor : Decimal) (hhalf : 0 < half) :
    powerLoop result factor (2 * half) =
      powerStep factor factor >>= fun square => powerLoop result square half := by
  rw [powerLoop, if_neg (by omega)]
  dsimp only
  rw [Nat.mul_mod_right, if_neg (by decide), Nat.mul_div_cancel_left _ (by decide)]
  simp only [if_neg hhalf.ne']
  rfl

theorem powerLoop_odd (result factor : Decimal) (hhalf : 0 < half) :
    powerLoop result factor (2 * half + 1) =
      powerStep result factor >>= fun product =>
        powerStep factor factor >>= fun square => powerLoop product square half := by
  rw [powerLoop, if_neg (by omega)]
  dsimp only
  rw [if_pos (by omega), show (2 * half + 1) / 2 = half by omega]
  simp only [if_neg hhalf.ne']

theorem IsExactProduct.powerStep_eq {a b : Decimal} (h : IsExactProduct a b product) :
    powerStep a b = .ok product := by
  rw [powerStep, h.computed]
  rfl

/-- The loop takes the run. -/
theorem ExactRun.powerLoop_eq (h : ExactRun result factor exponent power) :
    powerLoop result factor exponent = .ok power := by
  induction h with
  | zero => exact powerLoop_zero _ _
  | one hproduct => rw [powerLoop_one, hproduct.powerStep_eq]
  | even hhalf hsquare _ ih =>
    rw [powerLoop_even _ _ hhalf, hsquare.powerStep_eq]
    exact ih
  | odd hhalf hproduct hsquare _ ih =>
    rw [powerLoop_odd _ _ hhalf, hproduct.powerStep_eq, hsquare.powerStep_eq]
    exact ih

/-- A product of two powers is exact when a power that is no lower is representable. -/
theorem exists_product {a b : Decimal} {m n total : Nat} (ha : a.value = base.value ^ m)
    (hb : b.value = base.value ^ n) (hle : m + n ≤ total)
    (h : Representable (base.value ^ total)) :
    ∃ product, IsExactProduct a b product ∧ product.value = base.value ^ (m + n) := by
  have hvalue : a.value * b.value = base.value ^ (m + n) := by rw [ha, hb, pow_add]
  have hproduct : Representable (a.value * b.value) := hvalue ▸ representable_pow_of_le hle h
  obtain ⟨product, hcomputed, hexact⟩ := exists_mul? hproduct
  exact ⟨product, ⟨hcomputed, hexact⟩, hexact.trans hvalue⟩

/-- The result is a power of the base, the factor is one, and what they are to be multiplied
to is representable: then every product on the way is exact. -/
theorem exists_exactRun {done unit : Nat} (hresult : result.value = base.value ^ done)
    (hfactor : factor.value = base.value ^ unit)
    (h : Representable (base.value ^ (done + unit * exponent))) :
    ∃ power, ExactRun result factor exponent power ∧
      power.value = base.value ^ (done + unit * exponent) := by
  induction exponent using Nat.strongRecOn generalizing result factor done unit with
  | ind exponent ih =>
    obtain ⟨half, rfl | rfl⟩ := exponent.even_or_odd'
    · rcases Nat.eq_zero_or_pos half with rfl | hhalf
      · exact ⟨result, .zero, hresult⟩
      · have htotal : done + unit * (2 * half) = done + (unit + unit) * half := by ring
        rw [htotal] at h ⊢
        obtain ⟨square, hsquare, hvalue⟩ := exists_product hfactor hfactor
          (Nat.le_add_left_of_le (Nat.le_mul_of_pos_right _ hhalf)) h
        obtain ⟨power, hrest, hpower⟩ := ih half (by omega) hresult hvalue h
        exact ⟨power, .even hhalf hsquare hrest, hpower⟩
    · rcases Nat.eq_zero_or_pos half with rfl | hhalf
      · rw [Nat.mul_zero, Nat.zero_add, Nat.mul_one] at h ⊢
        obtain ⟨power, hproduct, hpower⟩ := exists_product hresult hfactor (Nat.le_refl _) h
        exact ⟨power, .one hproduct, hpower⟩
      · have htotal : done + unit * (2 * half + 1) = done + unit + (unit + unit) * half := by
          ring
        rw [htotal] at h ⊢
        obtain ⟨product, hproduct, hnext⟩ := exists_product hresult hfactor
          (Nat.le_add_right _ _) h
        obtain ⟨square, hsquare, hvalue⟩ := exists_product hfactor hfactor
          (Nat.le_add_left_of_le (Nat.le_mul_of_pos_right _ hhalf)) h
        obtain ⟨power, hrest, hpower⟩ := ih half (by omega) hnext hvalue h
        exact ⟨power, .odd hhalf hproduct hsquare hrest, hpower⟩

/-- From one and the base on, the run ends at the power. -/
theorem exists_exactRun_pow {n : Nat} (h : Representable (base.value ^ n)) :
    ∃ power, ExactRun Decimal.one base n power ∧ power.value = base.value ^ n := by
  have hone : Decimal.one.value = base.value ^ 0 := by rw [value_one, pow_zero]
  have hbase : base.value = base.value ^ 1 := (pow_one _).symm
  have htotal : 0 + 1 * n = n := by rw [Nat.zero_add, Nat.one_mul]
  have hrun := exists_exactRun hone hbase (htotal.symm ▸ h)
  rwa [htotal] at hrun

/-! ### Exponents -/

/-- Without its fraction a number that has none is the same. -/
theorem value_truncate {number : Decimal} (h : number.hasFraction = false) :
    number.truncate.value = number.value := by
  have hrest : number.mantissa % tenTo number.scale = 0 := by simpa [hasFraction] using h
  refine value_eq_of_crossed ?_
  rw [tenTo_zero, Nat.mul_one, Nat.div_mul_cancel (Nat.dvd_of_mod_eq_zero hrest)]

/-- A whole number is recognized however many zeros it is written with. -/
theorem truncate_of_value {number : Decimal} {n : Int} (h : number.value = n) :
    number.hasFraction = false ∧ number.truncate.signed = n := by
  have hsigned : number.signed = n * tenTo number.scale := by
    rw [value_eq_signed, div_eq_iff (by positivity), ← cast_tenTo] at h
    exact_mod_cast h
  have hmantissa : number.mantissa = n.natAbs * tenTo number.scale := by
    rw [← natAbs_signed, hsigned, Int.natAbs_mul, Int.natAbs_natCast]
  constructor
  · rw [hasFraction, hmantissa, Nat.mul_mod_left]
    rfl
  · have hunit : (tenTo number.scale : Int) ≠ 0 := by exact_mod_cast (tenTo_pos _).ne'
    rw [signed, hmantissa] at hsigned
    rw [signed, truncate, hmantissa, Nat.mul_div_cancel _ (tenTo_pos _)]
    refine Int.eq_of_mul_eq_mul_right hunit ?_
    rw [← hsigned]
    split <;> push_cast <;> ring

/-- Of all words only the least has no absolute value among them. -/
theorem toInt_abs {word : Int64} (h : word ≠ Int64.minValue) :
    word.abs.toInt = word.toInt.natAbs := by
  have hbits : word.toBitVec ≠ BitVec.intMin 64 := fun hmin => h (Int64.toBitVec_inj.mp hmin)
  exact BitVec.toInt_abs_eq_natAbs_of_ne_intMin hbits

/-- The numbers that are left as whole exponents: those within the bound, and the least
word. -/
theorem abs_le_iff {word : Int64} :
    word.abs ≤ Int64.ofNat greatestWholeExponent ↔
      word.toInt.natAbs ≤ greatestWholeExponent ∨ word.toInt = -2 ^ 63 := by
  have hbound : (Int64.ofNat greatestWholeExponent).toInt = greatestWholeExponent := rfl
  have hleast : Int64.minValue.abs = Int64.minValue := rfl
  rw [Int64.le_iff_toInt_le, hbound]
  by_cases h : word = Int64.minValue
  · subst h
    rw [hleast, Int64.toInt_minValue]
    simp [greatestWholeExponent]
  · have hne : word.toInt ≠ -2 ^ 63 := by
      rw [← Int64.toInt_minValue]
      exact fun hvalue => h (Int64.toInt_inj.mp hvalue)
    rw [toInt_abs h, Int.ofNat_le]
    exact (or_iff_left hne).symm

theorem word?_eq_some_iff {n : Int} {word : Int64} : word? n = some word ↔ word.toInt = n := by
  rw [word?]
  constructor
  · intro h
    split at h
    · rename_i hfits
      obtain rfl := Option.some.inj h
      rw [Int64.toInt_minValue, Int64.toInt_maxValue] at hfits
      exact Int64.toInt_ofInt_of_le hfits.1 (by omega)
    · cases h
  · rintro rfl
    rw [if_pos ⟨word.minValue_le_toInt, word.toInt_le⟩, Int64.ofInt_toInt]

/-- The exponents that are computed as whole ones. -/
theorem wholeExponent?_eq_some_iff {exponent : Decimal} {n : Int} :
    wholeExponent? exponent = some n ↔
      exponent.value = n ∧ (n.natAbs ≤ greatestWholeExponent ∨ n = -2 ^ 63) := by
  rw [wholeExponent?]
  constructor
  · intro h
    split at h
    · cases h
    · rename_i hwhole
      obtain ⟨word, hfiltered, rfl⟩ := Option.map_eq_some_iff.mp h
      obtain ⟨hword, hbound⟩ := Option.filter_eq_some_iff.mp hfiltered
      rw [word?_eq_some_iff] at hword
      refine ⟨?_, abs_le_iff.mp (of_decide_eq_true hbound)⟩
      rw [← value_truncate (Bool.eq_false_of_not_eq_true hwhole), value_eq_signed, hword,
        truncate, pow_zero, div_one]
  · rintro ⟨hvalue, hbound⟩
    obtain ⟨hwhole, htruncated⟩ := truncate_of_value hvalue
    have hword : ∃ word : Int64, word.toInt = n := by
      refine ⟨Int64.ofInt n, Int64.toInt_ofInt_of_le ?_ ?_⟩ <;>
        simp only [greatestWholeExponent] at hbound <;> omega
    obtain ⟨word, rfl⟩ := hword
    have hfiltered : (word? word.toInt).filter
        (fun n => n.abs ≤ Int64.ofNat greatestWholeExponent) = some word :=
      Option.filter_eq_some_iff.mpr
        ⟨word?_eq_some_iff.mpr rfl, decide_eq_true (abs_le_iff.mpr hbound)⟩
    rw [hwhole, if_neg Bool.false_ne_true, htruncated, hfiltered]
    rfl

theorem pow_eq_wholePower {exponent : Decimal} {n : Int} (base : Decimal)
    (h : exponent.value = n) (hbound : n.natAbs ≤ greatestWholeExponent) :
    pow [base, exponent] = wholePower base n := by
  change Math.power base exponent = _
  rw [Math.power, wholeExponent?_eq_some_iff.mpr ⟨h, .inl hbound⟩]

/-- After an exact run only the reciprocal is left to be taken. -/
theorem wholePower_of_exactRun {n : Int} (h : ExactRun Decimal.one base n.natAbs power)
    (hbase : ¬(n < 0 ∧ base.isZero = true)) :
    wholePower base n =
      if n < 0 then
        Checked.orFault (if power.isZero then none else Decimal.one.div? power)
          (.inverseOutOfRange base n)
      else .ok power := by
  rw [wholePower, if_neg hbase, h.powerLoop_eq]
  rfl

/-! ### Exact powers -/

/-- A power that is representable is computed exactly, and so is each product on the way. -/
theorem pow_exact {exponent : Decimal} {n : Nat} (hexponent : exponent.value = n)
    (hbound : n ≤ greatestWholeExponent) (hpower : Representable (base.value ^ n)) :
    ∃ power, pow [base, exponent] = .ok power ∧ power.value = base.value ^ n ∧
      ExactRun Decimal.one base n power := by
  obtain ⟨power, hrun, hvalue⟩ := exists_exactRun_pow hpower
  refine ⟨power, ?_, hvalue, hrun⟩
  rw [pow_eq_wholePower (n := n) base (by exact_mod_cast hexponent) hbound,
    wholePower_of_exactRun hrun fun h => absurd h.1 (by omega), if_neg (by omega)]

/-- The third power of a negative number that is written with a zero too many. -/
theorem pow_exact_third :
    value ⟨false, 300, 2⟩ = (3 : Nat) ∧ 3 ≤ greatestWholeExponent ∧
      Representable (value ⟨true, 150, 2⟩ ^ 3) ∧
      ∃ power, pow [⟨true, 150, 2⟩, ⟨false, 300, 2⟩] = .ok power ∧
        power.value = value ⟨true, 150, 2⟩ ^ 3 ∧
        ExactRun Decimal.one ⟨true, 150, 2⟩ 3 power := by
  have hexponent : value ⟨false, 300, 2⟩ = (3 : Nat) := by
    rw [value_of_positive]
    norm_num
  have hpower : Representable (value ⟨true, 150, 2⟩ ^ 3) :=
    ⟨exactPower ⟨true, 150, 2⟩ 3, by decide +kernel, value_exactPower _ 3⟩
  exact ⟨hexponent, by decide, hpower, pow_exact hexponent (by decide) hpower⟩

/-- A negative power that is representable is computed exactly, when the positive power that
it is the reciprocal of is representable too. -/
theorem pow_inverse_exact {exponent : Decimal} {n : Int} (hexponent : exponent.value = n)
    (hnegative : n < 0) (hbound : n.natAbs ≤ greatestWholeExponent)
    (hbase : ¬base.isZero = true) (hinverse : Representable (base.value ^ n))
    (hpositive : Representable (base.value ^ (-n))) :
    ∃ inverse, pow [base, exponent] = .ok inverse ∧ inverse.value = base.value ^ n := by
  have hcount : -n = (n.natAbs : Int) := by omega
  rw [hcount, zpow_natCast] at hpositive
  obtain ⟨power, hrun, hvalue⟩ := exists_exactRun_pow hpositive
  have hreciprocal : Decimal.one.value / power.value = base.value ^ n := by
    calc
      Decimal.one.value / power.value = (base.value ^ n.natAbs)⁻¹ := by
        rw [value_one, hvalue, one_div]
      _ = (base.value ^ (-n))⁻¹ := by rw [hcount, zpow_natCast]
      _ = base.value ^ n := by rw [zpow_neg, inv_inv]
  have hnonzero : ¬power.isZero = true := by
    rw [isZero_iff_value_eq_zero, hvalue]
    exact pow_ne_zero _ (value_ne_zero hbase)
  obtain ⟨inverse, hquotient, hexact⟩ := exists_div? hnonzero (hreciprocal.symm ▸ hinverse)
  refine ⟨inverse, ?_, hexact.trans hreciprocal⟩
  rw [pow_eq_wholePower base hexponent hbound, wholePower_of_exactRun hrun fun h => hbase h.2,
    if_pos hnegative, if_neg hnonzero, hquotient]
  rfl

/-- One over the square of a fifth. -/
theorem pow_inverse_exact_fifth :
    value ⟨true, 2, 0⟩ = (-2 : Int) ∧ (-2 : Int) < 0 ∧
      (-2 : Int).natAbs ≤ greatestWholeExponent ∧ ¬isZero ⟨false, 2, 1⟩ = true ∧
      Representable (value ⟨false, 2, 1⟩ ^ (-2 : Int)) ∧
      Representable (value ⟨false, 2, 1⟩ ^ (-(-2 : Int))) ∧
      ∃ inverse, pow [⟨false, 2, 1⟩, ⟨true, 2, 0⟩] = .ok inverse ∧
        inverse.value = value ⟨false, 2, 1⟩ ^ (-2 : Int) := by
  have hexponent : value ⟨true, 2, 0⟩ = (-2 : Int) := by
    rw [value_eq]
    norm_num [signFactor]
  have hinverse : Representable (value ⟨false, 2, 1⟩ ^ (-2 : Int)) := by
    refine ⟨ofNat 25, by decide +kernel, ?_⟩
    rw [value_ofNat, value_of_positive]
    norm_num
  have hpositive : Representable (value ⟨false, 2, 1⟩ ^ (-(-2 : Int))) := by
    refine ⟨⟨false, 4, 2⟩, by decide +kernel, ?_⟩
    rw [value_of_positive, value_of_positive]
    norm_num
  exact ⟨hexponent, by decide, by decide, by decide, hinverse, hpositive,
    pow_inverse_exact hexponent (by decide) (by decide) (by decide) hinverse hpositive⟩

/-- The powers of a half have more digits than there is room for, though two to the fortieth
has not: its reciprocal is rounded before it is taken.  At the ninety-fifth nothing is left
to take the reciprocal of. -/
theorem pow_inverse_rounded :
    (Representable (value ⟨false, 5, 1⟩ ^ (-40 : Int)) ∧
      ∃ inverse, pow [⟨false, 5, 1⟩, ⟨true, 40, 0⟩] = .ok inverse ∧
        inverse.value ≠ value ⟨false, 5, 1⟩ ^ (-40 : Int)) ∧
    (Representable (value ⟨false, 5, 1⟩ ^ (-95 : Int)) ∧
      pow [⟨false, 5, 1⟩, ⟨true, 95, 0⟩] =
        .error (.arithmetic (.inverseOutOfRange ⟨false, 5, 1⟩ (-95)))) := by
  refine ⟨⟨⟨ofNat (2 ^ 40), by decide +kernel, ?_⟩,
    ⟨false, 10995116277760000458364696744, 16⟩, by decide +kernel, ?_⟩,
    ⟨ofNat (2 ^ 95), by decide +kernel, ?_⟩, by decide +kernel⟩
  · rw [value_ofNat, value_of_positive]
    norm_num
  · rw [value_of_positive, value_of_positive]
    norm_num
  · rw [value_ofNat, value_of_positive]
    norm_num

end DerivedTelemetry.Math
