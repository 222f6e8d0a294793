import DerivedTelemetry.Proofs.Decimal.Quotients

/-!
# Results as nearest decimals

Sums, products and quotients answer the nearest decimal to their exact result, and they
have no result only when there is no nearest decimal.  So the scales of the operands are not
seen in the value of a result, nor in whether there is one.

The nearest decimal keeps the order of fractions.  This is not clear where the greater of
two fractions has fewer places: the smaller one may then have digits up to the capacity, and
the greater one may be rounded down.  But the capacity ends in a six, so that its tenth is
rounded up.
-/

namespace DerivedTelemetry.Rounding

open Decimal

variable {x y : ℚ} {n m digits digits' : ℤ} {places places' : Nat}

/-! ### Nearest whole numbers -/

theorem IsNearestEven.mono (hn : IsNearestEven x n) (hm : IsNearestEven y m) (h : x ≤ y) :
    n ≤ m := by
  by_contra hgreater
  have hgap : (m : ℚ) + 1 ≤ n := by exact_mod_cast (by omega : m + 1 ≤ n)
  obtain ⟨_, hbelow⟩ := abs_le.mp hm.near
  obtain ⟨habove, _⟩ := abs_le.mp hn.near
  -- Both are half way between the two whole numbers.
  have hsame : x = y := by linarith
  subst hsame
  exact hgreater (hn.unique hm).le

theorem IsNearestEven.abs (h : IsNearestEven x n) : IsNearestEven |x| |n| := by
  have hzero : IsNearestEven 0 0 := by exact_mod_cast isNearestEven_intCast 0
  rcases le_total 0 x with hx | hx
  · rwa [abs_of_nonneg hx, abs_of_nonneg (hzero.mono h hx)]
  · rw [abs_of_nonpos hx, abs_of_nonpos (h.mono hzero hx)]
    exact h.neg

theorem abs_eq_natAbs_div (x : ℚ) : |x| = (x.num.natAbs : ℚ) / x.den := by
  rw [Nat.cast_natAbs, Int.cast_abs, ← Nat.abs_cast x.den, ← abs_div, Rat.num_div_den]

/-- A fraction as a sign and a quotient of whole numbers. -/
theorem eq_signFactor_mul (x : ℚ) :
    x = signFactor (decide (x < 0)) * ((x.num.natAbs : ℚ) / x.den) := by
  rw [← abs_eq_natAbs_div]
  by_cases hx : x < 0
  · rw [signFactor, if_pos (decide_eq_true hx), abs_of_neg hx, neg_one_mul, neg_neg]
  · rw [signFactor, if_neg (by simpa using hx), abs_of_nonneg (not_lt.mp hx), one_mul]

theorem exists_isNearestEven (x : ℚ) : ∃ n, IsNearestEven x n := by
  have hnearest := isNearestEven_div x.num.natAbs x.den_pos
  rw [eq_signFactor_mul x]
  rcases Bool.eq_false_or_eq_true (decide (x < 0)) with hsign | hsign
  · rw [hsign, signFactor, if_pos rfl, neg_one_mul]
    exact ⟨_, hnearest.neg⟩
  · rw [hsign, signFactor, if_neg Bool.false_ne_true, one_mul]
    exact ⟨_, hnearest⟩

/-! ### Nearest decimals -/

/-- Without its places a fraction has no more digits. -/
theorem IsNearestDecimal.whole_lt (h : IsNearestDecimal x digits places)
    (hn : IsNearestEven |x| n) : n < capacity := by
  have hscaled : |x| ≤ |x * 10 ^ places| := by
    rw [abs_mul, abs_of_nonneg (by positivity : (0 : ℚ) ≤ 10 ^ places)]
    exact le_mul_of_one_le_right (abs_nonneg x) (one_le_pow₀ (by norm_num))
  exact lt_of_le_of_lt (hn.mono h.rounded.abs hscaled) h.fits

/-- A tenth of the capacity is rounded up. -/
theorem capacity_le_ten_mul (hn : IsNearestEven x n) (h : (capacity : ℚ) - 1 / 2 ≤ x * 10) :
    (capacity : ℤ) ≤ n * 10 := by
  obtain ⟨_, hbelow⟩ := abs_le.mp hn.near
  have hwhole : ((capacity : ℤ) : ℚ) - 6 < (n * 10 : ℤ) := by
    push_cast
    linarith
  have hcapacity : (capacity : ℤ) = 79228162514264337593543950336 := by
    norm_num [capacity, twoTo]
  have hwhole' : (capacity : ℤ) - 6 < n * 10 := by exact_mod_cast hwhole
  omega

/-- Where there is room below zero for more places of a lesser fraction, there is for fewer
places of a greater one. -/
theorem IsNearestEven.room_below {rest : Nat} (hx : IsNearestEven (x * 10 ^ (places + rest)) n)
    (hlow : -(capacity : ℤ) < n) (hy : IsNearestEven (y * 10 ^ places) m) (h : x ≤ y) :
    -(capacity : ℤ) < m := by
  have hcapacity : (0 : ℤ) < capacity := by norm_num [capacity, twoTo]
  rcases le_total 0 (y * 10 ^ places) with hsign | hsign
  · have hnonneg : 0 ≤ m := (isNearestEven_intCast 0).mono hy (by exact_mod_cast hsign)
    omega
  · have hscaled : x * 10 ^ (places + rest) ≤ y * 10 ^ places := by
      calc
        x * 10 ^ (places + rest) ≤ y * 10 ^ (places + rest) := by gcongr
        _ = y * 10 ^ places * 10 ^ rest := by rw [pow_add, mul_assoc]
        _ ≤ y * 10 ^ places := mul_le_of_one_le_right hsign (one_le_pow₀ (by norm_num))
    exact lt_of_lt_of_le hlow (hx.mono hy hscaled)

/-- Fewer places stand for a greater magnitude. -/
theorem IsNearestDecimal.le_of_fewer (hx : IsNearestDecimal x digits places)
    (hy : IsNearestDecimal y digits' places') (h : x ≤ y) (hfewer : places' < places) :
    (digits : ℚ) / 10 ^ places ≤ digits' / 10 ^ places' := by
  obtain ⟨longer, hlonger⟩ := exists_isNearestEven (y * 10 ^ (places' + 1))
  have hfull := hy.widest (places' + 1) (Nat.le_trans hfewer hx.places_le)
    (Nat.lt_succ_self places') longer hlonger
  obtain ⟨rest, hrest⟩ := Nat.exists_eq_add_of_le (Nat.succ_le_of_lt hfewer)
  have hscale : (1 : ℚ) ≤ 10 ^ rest := one_le_pow₀ (by norm_num)
  have hplaces : (10 : ℚ) ^ places = 10 ^ (places' + 1) * 10 ^ rest := by rw [hrest, pow_add]
  obtain ⟨hlow, hhigh⟩ := abs_lt.mp hx.fits
  rcases le_abs'.mp hfull with hnegative | hpositive
  · -- The lesser fraction would have no room for its places.
    have hroom := (hrest ▸ hx.rounded).room_below hlow hlonger h
    omega
  · have hgreat : (capacity : ℚ) - 1 / 2 ≤ y * 10 ^ places' * 10 := by
      have hlonger' : (capacity : ℚ) ≤ longer := by exact_mod_cast hpositive
      obtain ⟨hnear, _⟩ := abs_le.mp hlonger.near
      rw [pow_succ, ← mul_assoc] at hnear
      linarith
    have htenfold : digits ≤ digits' * 10 :=
      le_trans hhigh.le (capacity_le_ten_mul hy.rounded hgreat)
    have htenfold' : (digits : ℚ) ≤ digits' * 10 := by exact_mod_cast htenfold
    have hnonneg : (0 : ℚ) ≤ digits' * 10 := by
      exact_mod_cast le_trans (Int.natCast_nonneg capacity)
        (capacity_le_ten_mul hy.rounded hgreat)
    rw [div_le_div_iff₀ (by positivity) (by positivity), hplaces, pow_succ]
    calc
      (digits : ℚ) * 10 ^ places' ≤ digits' * 10 * 10 ^ places' := by gcongr
      _ ≤ digits' * 10 * 10 ^ places' * 10 ^ rest :=
        le_mul_of_one_le_right (by positivity) hscale
      _ = digits' * (10 ^ places' * 10 * 10 ^ rest) := by ring

/-- The nearest decimals of two fractions are in the order of the fractions. -/
theorem IsNearestDecimal.mono (hx : IsNearestDecimal x digits places)
    (hy : IsNearestDecimal y digits' places') (h : x ≤ y) :
    (digits : ℚ) / 10 ^ places ≤ digits' / 10 ^ places' := by
  rcases lt_trichotomy places' places with hfewer | rfl | hmore
  · exact hx.le_of_fewer hy h hfewer
  · have hdigits := hx.rounded.mono hy.rounded (by gcongr)
    gcongr
  · have hopposite := hy.neg.le_of_fewer hx.neg (neg_le_neg h) hmore
    rw [Int.cast_neg, Int.cast_neg, neg_div, neg_div] at hopposite
    exact neg_le_neg_iff.mp hopposite

/-- There is a nearest decimal for every fraction that is not rounded beyond the greatest
one. -/
theorem exists_isNearestDecimal_of_abs_lt (h : |x| < capacity - 1 / 2) :
    ∃ digits places, IsNearestDecimal x digits places := by
  have hdigits : quotientAt x.num.natAbs x.den 0 < capacity := by
    have hnearest := isNearestEven_quotientAt x.num.natAbs x.den_pos 0
    rw [pow_zero, mul_one, ← abs_eq_natAbs_div] at hnearest
    have hless : ((quotientAt x.num.natAbs x.den 0 : ℤ) : ℚ) < capacity := by
      linarith [(abs_le.mp hnearest.near).1]
    exact_mod_cast hless
  obtain ⟨greatest, hgreatest⟩ := exists_quotientScale?_of_lt (Nat.zero_le maxScale) hdigits
  rw [eq_signFactor_mul x]
  exact ⟨_, greatest, (isNearestDecimal_quotientAt x.den_pos hgreatest).signed _⟩

/-- Half way to the capacity a fraction is rounded up to it, which is even. -/
theorem IsNearestDecimal.abs_lt (h : IsNearestDecimal x digits places) :
    |x| < capacity - 1 / 2 := by
  obtain ⟨whole, hwhole⟩ := exists_isNearestEven |x|
  have hfits : (whole : ℚ) ≤ capacity - 1 := by
    exact_mod_cast Int.le_sub_one_of_lt (h.whole_lt hwhole)
  by_contra hgreat
  have hnear := (abs_le.mp hwhole.near).2
  have hlast : (whole : ℚ) = capacity - 1 := by linarith
  have hhalf : |(|x| - whole)| = 1 / 2 := le_antisymm hwhole.near (by
    rw [hlast]
    exact le_trans (by linarith) (le_abs_self _))
  have heven : Even ((capacity : ℤ) - 1) := by
    have hlast' : whole = (capacity : ℤ) - 1 := by exact_mod_cast hlast
    exact hlast' ▸ hwhole.even hhalf
  exact absurd heven (by decide +kernel)

/-- Half a unit in the last place there is, or less, is rounded to zero. -/
theorem isNearestDecimal_zero (h : |x| ≤ 1 / 2 / 10 ^ maxScale) :
    IsNearestDecimal x 0 maxScale := by
  have hscaled : |x * 10 ^ maxScale - (0 : ℤ)| ≤ 1 / 2 := by
    rwa [Int.cast_zero, sub_zero, abs_mul, abs_of_nonneg (by positivity : (0 : ℚ) ≤ 10 ^ maxScale),
      ← le_div_iff₀ (by positivity)]
  refine ⟨isNearestEven_of_even hscaled Even.zero, by norm_num [capacity, twoTo], le_rfl, ?_⟩
  intro more hmore hgreater
  exact absurd hgreater (Nat.not_lt.mpr hmore)

/-- No digits are left only at the last place there is: one more place would bring a few. -/
theorem IsNearestDecimal.abs_le_of_zero (h : IsNearestDecimal x 0 places) :
    |x| ≤ 1 / 2 / 10 ^ maxScale := by
  have hunit : ∀ more : Nat, |(10 : ℚ) ^ more| = 10 ^ more := fun more =>
    abs_of_nonneg (by positivity)
  have hnear := h.rounded.near
  rw [Int.cast_zero, sub_zero, abs_mul, hunit] at hnear
  rcases Nat.lt_or_eq_of_le h.places_le with hfewer | rfl
  · obtain ⟨longer, hlonger⟩ := exists_isNearestEven (x * 10 ^ (places + 1))
    have hfull := h.widest _ hfewer (Nat.lt_succ_self places) longer hlonger
    have hsmall : |x * 10 ^ (places + 1)| ≤ (5 : ℤ) := by
      rw [abs_mul, hunit, pow_succ, ← mul_assoc]
      push_cast
      linarith
    have hfew := hlonger.abs.mono (isNearestEven_intCast 5) hsmall
    exact absurd (hfull.trans hfew) (by decide +kernel)
  · rwa [le_div_iff₀ (by positivity)]

end DerivedTelemetry.Rounding

namespace DerivedTelemetry.Decimal

open Rounding

variable {x y : ℚ} {a b number : Decimal} {result other : Option Decimal}

/-- A number with the value of the nearest decimal to a fraction. -/
def Nearest (x : ℚ) (number : Decimal) : Prop :=
  ∃ digits places, IsNearestDecimal x digits places ∧ number.value = digits / 10 ^ places

theorem Nearest.mono (ha : Nearest x a) (hb : Nearest y b) (h : x ≤ y) :
    a.value ≤ b.value := by
  obtain ⟨_, _, hx, hvalue⟩ := ha
  obtain ⟨_, _, hy, hvalue'⟩ := hb
  rw [hvalue, hvalue']
  exact hx.mono hy h

theorem Nearest.value_eq (ha : Nearest x a) (hb : Nearest x b) : a.value = b.value :=
  le_antisymm (ha.mono hb le_rfl) (hb.mono ha le_rfl)

theorem WellFormed.nearest (h : a.WellFormed) : Nearest a.value a := by
  obtain ⟨digits, places, hnearest⟩ := exists_isNearestDecimal h.representable
  exact ⟨digits, places, hnearest, (hnearest.eq_of_representable h.representable).symm⟩

theorem Nearest.nonneg (h : Nearest x a) (hx : 0 ≤ x) : 0 ≤ a.value := by
  rw [← value_zero] at hx ⊢
  exact wellFormed_zero.nearest.mono h hx

theorem WellFormed.abs_value_le (h : a.WellFormed) : |a.value| ≤ capacity - 1 := by
  have hmantissa : (a.mantissa : ℚ) + 1 ≤ capacity := by exact_mod_cast h.mantissa_lt
  rw [abs_value]
  calc
    (a.mantissa : ℚ) / 10 ^ a.scale ≤ a.mantissa :=
      div_le_self (by positivity) (one_le_pow₀ (by norm_num))
    _ ≤ capacity - 1 := le_sub_iff_add_le.mpr hmantissa

/-! ### Operations that answer the nearest decimal -/

/-- The result of an operation is the nearest decimal to a fraction, and there is one
whenever there is such a decimal. -/
structure Rounds (x : ℚ) (result : Option Decimal) : Prop where
  nearest : ∀ number, result = some number → Nearest x number
  exists_some : ∀ digits places, IsNearestDecimal x digits places →
    ∃ number, result = some number

theorem Rounds.of_wellFormed (h : number.WellFormed) (hvalue : number.value = x) :
    Rounds x (some number) := by
  subst hvalue
  refine ⟨fun same hsame => ?_, fun _ _ _ => ⟨number, rfl⟩⟩
  obtain rfl := Option.some.inj hsame
  exact h.nearest

theorem Rounds.exists_of_abs_le (h : Rounds x result) (hx : |x| ≤ capacity - 1) :
    ∃ number, result = some number ∧ Nearest x number := by
  have hless : |x| < capacity - 1 / 2 := by linarith
  obtain ⟨_, _, hnearest⟩ := exists_isNearestDecimal_of_abs_lt hless
  obtain ⟨number, hnumber⟩ := h.exists_some _ _ hnearest
  exact ⟨number, hnumber, h.nearest number hnumber⟩

theorem Rounds.exists_of_some (h : Rounds x result) (hother : Rounds x other)
    (hnumber : result = some number) : ∃ same, other = some same ∧ same.value = number.value := by
  obtain ⟨digits, places, hnearest, hvalue⟩ := h.nearest number hnumber
  obtain ⟨same, hsame⟩ := hother.exists_some _ _ hnearest
  exact ⟨same, hsame, (hother.nearest same hsame).value_eq ⟨digits, places, hnearest, hvalue⟩⟩

/-- Signs that are cleared from zeros are not seen. -/
theorem Rounds.map (h : Rounds x result) {f : Decimal → Decimal}
    (hvalue : ∀ number, (f number).value = number.value) : Rounds x (result.map f) := by
  constructor
  · intro number hnumber
    obtain ⟨number, hresult, rfl⟩ := Option.map_eq_some_iff.mp hnumber
    obtain ⟨digits, places, hnearest, hexact⟩ := h.nearest number hresult
    exact ⟨digits, places, hnearest, (hvalue number).trans hexact⟩
  · intro digits places hnearest
    obtain ⟨number, rfl⟩ := h.exists_some digits places hnearest
    exact ⟨f number, rfl⟩

theorem isNearestEven_dropped (mantissa : Nat) {dropped scale : Nat} (h : dropped ≤ scale) :
    IsNearestEven ((mantissa : ℚ) / 10 ^ scale * 10 ^ (scale - dropped))
      (divHalfEven mantissa (tenTo dropped) : Nat) := by
  have hscaled : (mantissa : ℚ) / 10 ^ scale * 10 ^ (scale - dropped) =
      mantissa / (tenTo dropped : Nat) := by
    rw [cast_tenTo, div_mul_eq_mul_div, div_eq_div_iff (by positivity) (by positivity), mul_assoc,
      ← pow_add, Nat.sub_add_cancel h]
  rw [hscaled]
  exact isNearestEven_div mantissa (tenTo_pos dropped)

/-- Fewer digits are dropped than it takes. -/
theorem capacity_le_of_digitsToDrop? {mantissa scale dropped fewer : Nat}
    (h : digitsToDrop? mantissa scale = some dropped) (hleast : scale - maxScale ≤ fewer)
    (hfewer : fewer < dropped) : capacity ≤ divHalfEven mantissa (tenTo fewer) := by
  rw [digitsToDrop?] at h
  have hskipped := (List.find?_range'_eq_some.mp h).2.2 fewer hleast hfewer
  exact Nat.le_of_not_lt fun hfits => by rw [decide_eq_true hfits] at hskipped; cases hskipped

/-- All fraction digits may be dropped. -/
theorem exists_digitsToDrop?_of_lt {mantissa scale : Nat}
    (h : divHalfEven mantissa (tenTo scale) < capacity) :
    ∃ dropped, digitsToDrop? mantissa scale = some dropped := by
  refine Option.isSome_iff_exists.mp (List.find?_isSome.mpr ⟨scale, ?_, decide_eq_true h⟩)
  exact List.mem_range'_1.mpr ⟨Nat.sub_le _ _, by omega⟩

/-- Digits are dropped from the end of the nearest decimal. -/
theorem isNearestDecimal_dropped {mantissa scale dropped : Nat} (hpos : 0 < dropped)
    (h : digitsToDrop? mantissa scale = some dropped) :
    IsNearestDecimal ((mantissa : ℚ) / 10 ^ scale)
      (divHalfEven mantissa (tenTo dropped) : Nat) (scale - dropped) := by
  have hrange := List.mem_range'_1.mp (List.mem_of_find?_eq_some h)
  refine ⟨isNearestEven_dropped mantissa (by omega), ?_, by omega, ?_⟩
  · rw [Nat.abs_cast]
    exact_mod_cast of_decide_eq_true (List.find?_some (p := fun k =>
      decide (divHalfEven mantissa (tenTo k) < capacity)) h)
  · intro more hmore hgreater longer hlonger
    have hfull : capacity ≤ divHalfEven mantissa (tenTo (scale - more)) :=
      capacity_le_of_digitsToDrop? h (by omega) (by omega)
    have hshorter := isNearestEven_dropped mantissa (Nat.sub_le scale more)
    have hplaces : (10 : ℚ) ^ (scale - (scale - more)) ≤ 10 ^ more :=
      pow_le_pow_right₀ (by norm_num) (by omega)
    have hdigits := hshorter.mono hlonger (by gcongr)
    have hfull' : (capacity : ℤ) ≤ (divHalfEven mantissa (tenTo (scale - more)) : Nat) := by
      exact_mod_cast hfull
    exact le_abs.mpr (Or.inl (le_trans hfull' hdigits))

theorem rounds_fit? (negative : Bool) (mantissa scale : Nat) :
    Rounds (value ⟨negative, mantissa, scale⟩) (fit? negative mantissa scale) := by
  constructor
  · intro number hnumber
    have hfits : number.WellFormed := wellFormed_of_fit? hnumber
    obtain ⟨dropped, hdropped, rfl⟩ := Option.map_eq_some_iff.mp hnumber
    rcases Nat.eq_zero_or_pos dropped with rfl | hpos
    · have hwhole : divHalfEven mantissa (tenTo 0) = mantissa := by
        simpa only [tenTo_zero, Nat.mul_one] using divHalfEven_mul_cancel mantissa Nat.one_pos
      rw [hwhole] at hfits ⊢
      exact hfits.nearest
    · have hnearest := (isNearestDecimal_dropped hpos hdropped).signed negative
      rw [← value_eq ⟨negative, mantissa, scale⟩] at hnearest
      exact ⟨_, _, hnearest, value_eq_signed _⟩
  · intro digits places hnearest
    have hwhole := isNearestEven_dropped mantissa (Nat.le_refl scale)
    rw [Nat.sub_self, pow_zero, mul_one] at hwhole
    have hfits : divHalfEven mantissa (tenTo scale) < capacity := by
      exact_mod_cast hnearest.whole_lt (abs_value ⟨negative, mantissa, scale⟩ ▸ hwhole)
    obtain ⟨dropped, hdropped⟩ := exists_digitsToDrop?_of_lt hfits
    exact ⟨_, by rw [fit?, hdropped]; rfl⟩

/-- A sum with a zero is the other operand, and any other sum is fitted. -/
theorem rounds_add? (ha : a.WellFormed) (hb : b.WellFormed) :
    Rounds (a.value + b.value) (a.add? b) := by
  rw [add?]
  split
  · rename_i hzero
    exact .of_wellFormed hb (by rw [value_eq_zero hzero, zero_add])
  · split
    · rename_i hzero
      exact .of_wellFormed ha (by rw [value_eq_zero hzero, add_zero])
    · rw [value_addAligned, ← value_ofSigned]
      exact rounds_fit? _ _ _

/-- Taking away is adding the opposite, and taking away a zero changes nothing. -/
theorem rounds_sub? (ha : a.WellFormed) (hb : b.WellFormed) :
    Rounds (a.value - b.value) (a.sub? b) := by
  rw [sub?]
  split
  · rename_i hzero
    rw [value_eq_zero hzero, sub_zero]
    split
    · rename_i hboth
      exact .of_wellFormed hb (by rw [value_eq_zero hzero, value_eq_zero hboth])
    · exact .of_wellFormed ha rfl
  · rw [sub_eq_add_neg, ← value_neg]
    exact rounds_add? ha ⟨hb.1, hb.2⟩

/-- Products of two words with more places than these are not fitted. -/
theorem rounds_mul? (hscale : a.scale + b.scale ≤ wordProductScale) :
    Rounds (a.value * b.value) (a.mul? b) := by
  rw [mul?]
  split
  · rename_i hzero
    exact .of_wellFormed wellFormed_zero (by rw [value_zero, value_mul_eq_zero hzero])
  · dsimp only
    rw [value_mul, if_neg (Nat.not_lt.mpr hscale)]
    split
    · refine (rounds_fit? _ _ _).map fun product => ?_
      split
      · rename_i hvanished
        exact value_abs_of_isZero hvanished
      · rfl
    · exact rounds_fit? _ _ _

theorem rounds_div? (ha : a.WellFormed) (hb : ¬b.isZero = true) :
    Rounds (a.value / b.value) (a.div? b) := by
  have hdenominator : 0 < b.mantissa * tenTo a.scale :=
    Nat.mul_pos (mantissa_pos hb) (tenTo_pos a.scale)
  refine ⟨fun quotient hquotient => exists_nearest_of_div? ha hb hquotient, ?_⟩
  intro digits places hnearest
  have hmagnitude : |a.value / b.value| =
      (a.mantissa * tenTo b.scale : Nat) / (b.mantissa * tenTo a.scale : Nat) := by
    rw [value_div, abs_mul, abs_signFactor, one_mul, abs_of_nonneg (by positivity)]
  have hwhole := isNearestEven_quotientAt (a.mantissa * tenTo b.scale) hdenominator 0
  rw [pow_zero, mul_one, ← hmagnitude] at hwhole
  obtain ⟨greatest, hgreatest⟩ := exists_quotientScale?_of_lt (Nat.zero_le maxScale)
    (by exact_mod_cast hnearest.whole_lt hwhole)
  rw [div?]
  split
  · exact ⟨_, rfl⟩
  · dsimp only
    split
    · exact ⟨_, rfl⟩
    · exact ⟨_, by rw [hgreatest]; rfl⟩

end DerivedTelemetry.Decimal
