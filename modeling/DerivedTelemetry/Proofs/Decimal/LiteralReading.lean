import DerivedTelemetry.Proofs.Decimal.Exact
import DerivedTelemetry.Proofs.Decimal.Readers

/-!
# What digits are read as

Digits can stand for any number that has finitely many of them, and only some of these are
decimals.  The digits that have been taken and those that are left over always stand for the
same number together.  So what is lost is the value of those left over, and the first of
them tells on which side of a half that is.
-/

namespace DerivedTelemetry.Decimal

/-! ### What digits stand for -/

/-- What digits after a point stand for. -/
def fractionValue : List Char → ℚ
  | [] => 0
  | c :: rest => (digitValue c + fractionValue rest) / 10

theorem digitValue_le {c : Char} (h : c.isDigit = true) : digitValue c ≤ 9 := by
  have hnine : c.toNat ≤ 9 + '0'.toNat := (Char.isDigit_iff_toNat.mp h).2
  exact Nat.sub_le_of_le_add hnine

theorem digitValue_eq_zero_iff {c : Char} (h : c.isDigit = true) :
    digitValue c = 0 ↔ ¬('1' ≤ c ∧ c ≤ '9') := by
  have hrange : 0x30 ≤ c.toNat ∧ c.toNat ≤ 0x39 := Char.isDigit_iff_toNat.mp h
  simp only [digitValue, Char.le_def, UInt32.le_iff_toNat_le]
  change c.toNat - 0x30 = 0 ↔ ¬(0x31 ≤ c.toNat ∧ c.toNat ≤ 0x39)
  omega

theorem fractionValue_nonneg (digits : List Char) : 0 ≤ fractionValue digits := by
  induction digits with
  | nil => exact le_refl 0
  | cons c rest ih =>
    rw [fractionValue]
    positivity

theorem fractionValue_lt_one {digits : List Char} (h : ∀ c ∈ digits, c.isDigit = true) :
    fractionValue digits < 1 := by
  induction digits with
  | nil => exact zero_lt_one
  | cons c rest ih =>
    have hdigit : (digitValue c : ℚ) ≤ 9 := by exact_mod_cast digitValue_le (h c (by simp))
    have hrest : fractionValue rest < 1 := ih fun d hd => h d (by simp [hd])
    rw [fractionValue, div_lt_one (by norm_num)]
    linarith

/-- The first digit tells on which side of a half the digits after a point are. -/
theorem half_le_fractionValue_iff {c : Char} {rest : List Char}
    (h : ∀ d ∈ c :: rest, d.isDigit = true) :
    1 / 2 ≤ fractionValue (c :: rest) ↔ 5 ≤ digitValue c := by
  have hlow : 0 ≤ fractionValue rest := fractionValue_nonneg rest
  have hhigh : fractionValue rest < 1 := fractionValue_lt_one fun d hd => h d (by simp [hd])
  rw [fractionValue, div_le_div_iff₀ (by norm_num) (by norm_num)]
  constructor
  · intro hhalf
    have hfour : ((4 : Nat) : ℚ) < digitValue c := by
      push_cast
      linarith
    exact_mod_cast hfour
  · intro hfive
    have hcast : ((5 : Nat) : ℚ) ≤ digitValue c := by exact_mod_cast hfive
    push_cast at hcast
    linarith

/-- Taking one more digit of a whole number. -/
theorem ofDigitChars_next (c : Char) (rest : List Char) (mantissa : Nat) :
    Nat.ofDigitChars 10 (c :: rest) mantissa =
      Nat.ofDigitChars 10 rest (mantissa * 10 + digitValue c) := by
  rw [Nat.ofDigitChars_cons, Nat.mul_comm, digitValue]

theorem le_ofDigitChars (digits : List Char) (mantissa : Nat) :
    mantissa ≤ Nat.ofDigitChars 10 digits mantissa := by
  induction digits generalizing mantissa with
  | nil => simp
  | cons c rest ih =>
    rw [ofDigitChars_next]
    exact le_trans (by omega) (ih _)

theorem ofDigitChars_eq_zero_iff (digits : List Char) (mantissa : Nat) :
    Nat.ofDigitChars 10 digits mantissa = 0 ↔ mantissa = 0 ∧ ∀ c ∈ digits, digitValue c = 0 := by
  induction digits generalizing mantissa with
  | nil => simp
  | cons c rest ih =>
    rw [ofDigitChars_next, ih]
    simp [and_assoc]

/-- Digits with a point among them stand for those before it and those after it. -/
theorem ofDigitChars_div (digits : List Char) (mantissa : Nat) :
    (Nat.ofDigitChars 10 digits mantissa : ℚ) / 10 ^ digits.length =
      mantissa + fractionValue digits := by
  induction digits generalizing mantissa with
  | nil => simp [fractionValue]
  | cons c rest ih =>
    rw [ofDigitChars_next, List.length_cons, pow_succ, ← div_div, ih, fractionValue]
    push_cast
    ring

theorem ofDigitChars_lt {digits : List Char} (h : ∀ c ∈ digits, c.isDigit = true) :
    Nat.ofDigitChars 10 digits 0 < 10 ^ digits.length := by
  have hquotient : (Nat.ofDigitChars 10 digits 0 : ℚ) / 10 ^ digits.length < 1 := by
    rw [ofDigitChars_div, Nat.cast_zero, zero_add]
    exact fractionValue_lt_one h
  rw [div_lt_one (by positivity)] at hquotient
  exact_mod_cast hquotient

/-! ### Taking digits -/

theorem readWhole_eq {mantissa : Nat} (digits : List Char) (h : mantissa < capacity) :
    readWhole mantissa digits =
      if Nat.ofDigitChars 10 digits mantissa < capacity then
        .ok (Nat.ofDigitChars 10 digits mantissa)
      else .error .tooManyDigits := by
  induction digits generalizing mantissa with
  | nil => simp [readWhole, h]
  | cons c rest ih =>
    rw [readWhole, ofDigitChars_next]
    split
    · rename_i hnext
      exact ih hnext
    · rename_i hnext
      have hlarge := le_ofDigitChars rest (mantissa * 10 + digitValue c)
      rw [if_neg (by omega)]

/-- What is taken and what is left over stand for this number. -/
def Reading.exact (reading : Reading) : ℚ :=
  (reading.mantissa + fractionValue reading.unread) / 10 ^ reading.scale

/-- The digits that could be taken have been. -/
structure Reading.Complete (reading : Reading) : Prop where
  mantissa_lt : reading.mantissa < capacity
  scale_le : reading.scale ≤ maxScale
  digits : ∀ c ∈ reading.unread, c.isDigit = true
  stopped : ∀ c ∈ reading.unread.head?,
    reading.scale = maxScale ∨ capacity ≤ reading.mantissa * 10 + digitValue c

/-- Taking digits changes nothing about what they stand for. -/
theorem exact_readFraction (mantissa scale : Nat) (digits : List Char) :
    (readFraction mantissa scale digits).exact =
      (mantissa + fractionValue digits) / 10 ^ scale := by
  induction digits generalizing mantissa scale with
  | nil => rfl
  | cons c rest ih =>
    rw [readFraction]
    split
    · rw [ih, fractionValue, pow_succ]
      push_cast
      field_simp
      ring
    · rfl

theorem stopped_readFraction {mantissa scale : Nat} {digits : List Char}
    (hscale : scale ≤ maxScale) (h : ∀ c ∈ digits, c.isDigit = true) :
    let reading := readFraction mantissa scale digits
    (∀ c ∈ reading.unread, c.isDigit = true) ∧ ∀ c ∈ reading.unread.head?,
      reading.scale = maxScale ∨ capacity ≤ reading.mantissa * 10 + digitValue c := by
  induction digits generalizing mantissa scale with
  | nil => simp [readFraction]
  | cons c rest ih =>
    rw [readFraction]
    split
    · rename_i hroom
      exact ih hroom.1 fun d hd => h d (by simp [hd])
    · rename_i hroom
      refine ⟨h, fun d hd => ?_⟩
      obtain rfl : c = d := by simpa using hd
      dsimp only at hroom ⊢
      omega

theorem complete_readFraction {mantissa scale : Nat} {digits : List Char}
    (hmantissa : mantissa < capacity) (hscale : scale ≤ maxScale)
    (h : ∀ c ∈ digits, c.isDigit = true) : (readFraction mantissa scale digits).Complete := by
  obtain ⟨hbounded, hplaces⟩ := readFraction_bounded digits hmantissa hscale
  obtain ⟨hunread, hstopped⟩ := stopped_readFraction hscale h
  exact ⟨hbounded, hplaces, hunread, hstopped⟩

/-- Where there is room for all digits, all of them are taken. -/
theorem readFraction_of_fits {mantissa scale : Nat} {digits : List Char}
    (hscale : scale + digits.length ≤ maxScale)
    (hmantissa : Nat.ofDigitChars 10 digits mantissa < capacity) :
    readFraction mantissa scale digits =
      ⟨Nat.ofDigitChars 10 digits mantissa, scale + digits.length, []⟩ := by
  induction digits generalizing mantissa scale with
  | nil => simp [readFraction]
  | cons c rest ih =>
    rw [ofDigitChars_next] at hmantissa
    rw [List.length_cons] at hscale
    have hnext := le_ofDigitChars rest (mantissa * 10 + digitValue c)
    have hroom : scale < maxScale ∧ mantissa * 10 + digitValue c < capacity := by omega
    rw [readFraction, if_pos hroom, ih (by omega) hmantissa, ofDigitChars_next, List.length_cons]
    congr 1
    omega

/-! ### Rounding -/

/-- The outcomes of rounding by the digits left over.  Raising the greatest mantissa of all
makes a digit more than fits, and the last one is given up for it. -/
inductive Reading.Rounds (reading : Reading) : Except LiteralError Decimal → Prop where
  | kept (hfraction : fractionValue reading.unread < 1 / 2) :
      Rounds reading (.ok ⟨false, reading.mantissa, reading.scale⟩)
  | raised (hfraction : 1 / 2 ≤ fractionValue reading.unread) :
      Rounds reading (.ok ⟨false, reading.mantissa + 1, reading.scale⟩)
  | carried {scale : Nat} (hfraction : 1 / 2 ≤ fractionValue reading.unread)
      (hfull : reading.mantissa + 1 = capacity) (hscale : reading.scale = scale + 1) :
      Rounds reading (.ok ⟨false, (capacity + 4) / 10, scale⟩)
  | refused (hfraction : 1 / 2 ≤ fractionValue reading.unread)
      (hfull : reading.mantissa + 1 = capacity) (hscale : reading.scale = 0) :
      Rounds reading (.error .mantissaAfterRounding)

theorem Reading.Complete.rounds {reading : Reading} (h : reading.Complete) :
    reading.Rounds reading.rounded := by
  obtain ⟨mantissa, scale, unread⟩ := reading
  obtain ⟨hmantissa, -, hunread, -⟩ := h
  dsimp only at hmantissa hunread
  cases unread with
  | nil =>
    have hzero : fractionValue [] < 1 / 2 := by norm_num [fractionValue]
    simp only [rounded, Nat.add_zero, if_pos hmantissa]
    exact .kept hzero
  | cons c rest =>
    by_cases hfive : 5 ≤ digitValue c
    · have hfraction := (half_le_fractionValue_iff hunread).mpr hfive
      simp only [rounded, if_pos hfive]
      split
      · exact .raised hfraction
      · have hfull : mantissa + 1 = capacity := by omega
        rw [hfull]
        cases scale with
        | zero => exact .refused hfraction hfull rfl
        | succ scale => exact .carried hfraction hfull rfl
    · have hfraction := lt_of_not_ge fun hhalf =>
        hfive ((half_le_fractionValue_iff hunread).mp hhalf)
      simp only [rounded, if_neg hfive, Nat.add_zero, if_pos hmantissa]
      exact .kept hfraction

namespace Reading

variable {reading : Reading} {number : Decimal}

private theorem apart_le_half {m rest : ℚ} (hlow : -(1 / 2) ≤ rest) (hhigh : rest < 1 / 2)
    (scale : Nat) :
    m / 10 ^ scale - (m + rest) / 10 ^ scale ≤ 1 / 2 / 10 ^ scale ∧
      (m + rest) / 10 ^ scale - m / 10 ^ scale < 1 / 2 / 10 ^ scale := by
  rw [← sub_div, ← sub_div]
  constructor
  · gcongr
    linarith
  · gcongr
    linarith

/-- In units of ten, the greatest mantissa is half a unit below the one it is carried to. -/
theorem exact_of_full {scale : Nat} (hfull : reading.mantissa + 1 = capacity)
    (hscale : reading.scale = scale + 1) :
    reading.exact =
      (((capacity + 4) / 10 : Nat) + (fractionValue reading.unread - 5) / 10) / 10 ^ scale := by
  have hten : 10 * ((capacity + 4) / 10) = capacity + 4 := by decide +kernel
  have hmantissa : 10 * (((capacity + 4) / 10 : Nat) : ℚ) = reading.mantissa + 1 + 4 := by
    rw [← hfull] at hten ⊢
    exact_mod_cast hten
  rw [exact, hscale, pow_succ, ← div_div, div_right_comm]
  congr 1
  linarith

/-- What rounding answers is not more than half a unit above and less than that below. -/
theorem Rounds.near (h : reading.Rounds (.ok number)) (hcomplete : reading.Complete) :
    number.value - reading.exact ≤ 1 / 2 / 10 ^ number.scale ∧
      reading.exact - number.value < 1 / 2 / 10 ^ number.scale := by
  have hlow : 0 ≤ fractionValue reading.unread := fractionValue_nonneg reading.unread
  have hhigh : fractionValue reading.unread < 1 := fractionValue_lt_one hcomplete.digits
  cases h with
  | kept hfraction =>
    rw [value_of_positive, exact]
    exact apart_le_half (by linarith) hfraction reading.scale
  | raised hfraction =>
    have hexact : reading.exact =
        (((reading.mantissa + 1 : Nat) : ℚ) + (fractionValue reading.unread - 1)) /
          10 ^ reading.scale := by
      rw [exact, Nat.cast_succ, add_add_sub_cancel]
    rw [value_of_positive, hexact]
    exact apart_le_half (by linarith) (by linarith) reading.scale
  | @carried scale hfraction hfull hscale =>
    rw [value_of_positive, exact_of_full hfull hscale]
    exact apart_le_half (by linarith) (by linarith) scale

/-- It is less than half of the least unit just where nothing but zeros has been taken and what
is left over is less than a half. -/
theorem Complete.exact_lt_iff (h : reading.Complete) :
    reading.exact < 1 / 2 / 10 ^ maxScale ↔
      reading.mantissa = 0 ∧ fractionValue reading.unread < 1 / 2 := by
  have hlow : 0 ≤ fractionValue reading.unread := fractionValue_nonneg reading.unread
  have hunits : (10 : ℚ) ^ reading.scale ≤ 10 ^ maxScale :=
    pow_le_pow_right₀ (by norm_num) h.scale_le
  constructor
  · intro hless
    have hhalf : reading.mantissa + fractionValue reading.unread < 1 / 2 := by
      by_contra hmore
      have hat : (1 : ℚ) / 2 / 10 ^ maxScale ≤ reading.exact := by
        rw [exact]
        gcongr
        exact not_lt.mp hmore
      linarith
    have hmantissa : (reading.mantissa : ℚ) < 1 := by linarith
    constructor
    · exact Nat.lt_one_iff.mp (by exact_mod_cast hmantissa)
    · have hnonneg : (0 : ℚ) ≤ reading.mantissa := Nat.cast_nonneg _
      linarith
  · intro ⟨hmantissa, hfraction⟩
    rw [exact, hmantissa, Nat.cast_zero, zero_add]
    cases hrest : reading.unread with
    | nil =>
      rw [fractionValue, zero_div]
      positivity
    | cons c rest =>
      have hsmall : digitValue c ≤ 9 := digitValue_le (h.digits c (by simp [hrest]))
      have hcapacity : 9 < capacity := by decide +kernel
      have hfilled : reading.scale = maxScale := by
        rcases h.stopped c (by simp [hrest]) with hfilled | hlarge
        · exact hfilled
        · omega
      rw [hrest] at hfraction
      rw [hfilled]
      gcongr

theorem Rounds.value_eq_zero_iff (h : reading.Rounds (.ok number)) :
    number.value = 0 ↔ reading.mantissa = 0 ∧ fractionValue reading.unread < 1 / 2 := by
  rw [← isZero_iff_value_eq_zero, isZero, beq_iff_eq]
  cases h with
  | kept hfraction => exact (and_iff_left hfraction).symm
  | raised hfraction =>
    have hpos : reading.mantissa + 1 ≠ 0 := Nat.succ_ne_zero _
    exact iff_of_false hpos fun hzero => absurd hzero.2 (not_lt.mpr hfraction)
  | carried hfraction hfull hscale =>
    have hpos : (capacity + 4) / 10 ≠ 0 := by decide +kernel
    exact iff_of_false hpos fun hzero => absurd hzero.2 (not_lt.mpr hfraction)

theorem Rounds.positive (h : reading.Rounds (.ok number)) : number.negative = false := by
  cases h <;> rfl

/-- Only what would round to the capacity cannot be rounded. -/
theorem Rounds.le_exact {cause : LiteralError} (h : reading.Rounds (.error cause)) :
    (capacity : ℚ) - 1 / 2 ≤ reading.exact := by
  cases h with
  | refused hfraction hfull hscale =>
    have hcast : (reading.mantissa : ℚ) + 1 = capacity := by exact_mod_cast hfull
    rw [exact, hscale, pow_zero, div_one]
    linarith

end Reading

/-! ### Numbers from digits -/

/-- The decimal that a number is read as: the nearest one of that scale, or the greater of two,
save that a carry may end up further above. -/
structure ReadFrom (number : Decimal) (x : ℚ) : Prop where
  wellFormed : number.WellFormed
  positive : number.negative = false
  above : number.value - x ≤ 1 / 2 / 10 ^ number.scale
  below : x - number.value < 1 / 2 / 10 ^ number.scale
  zero_iff : number.value = 0 ↔ x < 1 / 2 / 10 ^ maxScale

variable {x : ℚ} {number : Decimal} {whole fraction : List Char}

theorem ReadFrom.near (h : number.ReadFrom x) :
    |number.value - x| ≤ 1 / 2 / 10 ^ number.scale :=
  abs_sub_le_iff.mpr ⟨h.above, h.below.le⟩

/-- What is read as a decimal does not round to the capacity. -/
theorem ReadFrom.lt_capacity (h : number.ReadFrom x) : x < capacity - 1 / 2 := by
  have hmantissa : (number.mantissa : ℚ) ≤ capacity - 1 := by
    rw [le_sub_iff_add_le]
    exact_mod_cast h.wellFormed.mantissa_lt
  have hunit : (1 : ℚ) ≤ 10 ^ number.scale := one_le_pow₀ (by norm_num)
  have hvalue : number.value = number.mantissa / 10 ^ number.scale := by
    rw [value_eq, h.positive, signFactor, if_neg Bool.false_ne_true, one_mul]
  calc x < number.value + 1 / 2 / 10 ^ number.scale := by linarith [h.below]
    _ = (number.mantissa + 1 / 2) / 10 ^ number.scale := by rw [hvalue, ← add_div]
    _ ≤ number.mantissa + 1 / 2 := div_le_self (by positivity) hunit
    _ ≤ capacity - 1 / 2 := by linarith

/-- Unless the digits before the point are too many already, those after it are taken. -/
theorem ofDigits_eq_rounded (fraction : List Char)
    (h : Nat.ofDigitChars 10 whole 0 < capacity) :
    ofDigits whole fraction = (readFraction (Nat.ofDigitChars 10 whole 0) 0 fraction).rounded := by
  rw [ofDigits, readWhole_eq whole (Nat.zero_lt_of_lt h), if_pos h]
  rfl

/-- Digits are read as a decimal, or what they stand for rounds to the capacity. -/
theorem ofDigits_cases (whole : List Char) (hfraction : ∀ c ∈ fraction, c.isDigit = true) :
    (∃ number, ofDigits whole fraction = .ok number ∧
        number.ReadFrom (Nat.ofDigitChars 10 whole 0 + fractionValue fraction)) ∨
      ∃ cause, ofDigits whole fraction = .error cause ∧
        (capacity : ℚ) - 1 / 2 ≤ Nat.ofDigitChars 10 whole 0 + fractionValue fraction := by
  by_cases hwhole : Nat.ofDigitChars 10 whole 0 < capacity
  · have hread := ofDigits_eq_rounded fraction hwhole
    have hexact := exact_readFraction (Nat.ofDigitChars 10 whole 0) 0 fraction
    have hcomplete := complete_readFraction hwhole (Nat.zero_le maxScale) hfraction
    have hrounds := hcomplete.rounds
    rw [← hread] at hrounds
    rw [pow_zero, div_one] at hexact
    rw [← hexact]
    cases hresult : ofDigits whole fraction with
    | ok number =>
      rw [hresult] at hrounds
      obtain ⟨habove, hbelow⟩ := hrounds.near hcomplete
      have hzero := hrounds.value_eq_zero_iff.trans hcomplete.exact_lt_iff.symm
      have hwellFormed := wellFormed_of_ofDigits hresult
      exact .inl ⟨number, rfl, hwellFormed, hrounds.positive, habove, hbelow, hzero⟩
    | error cause =>
      rw [hresult] at hrounds
      exact .inr ⟨cause, rfl, hrounds.le_exact⟩
  · right
    have hlarge : (capacity : ℚ) ≤ Nat.ofDigitChars 10 whole 0 := by
      exact_mod_cast not_lt.mp hwhole
    refine ⟨.tooManyDigits, ?_, by linarith [fractionValue_nonneg fraction]⟩
    rw [ofDigits, readWhole_eq whole (by decide +kernel), if_neg hwhole]
    rfl

/-- Where there is room for all digits, they are the mantissa. -/
theorem ofDigits_of_fits (hscale : fraction.length ≤ maxScale)
    (hmantissa : Nat.ofDigitChars 10 (whole ++ fraction) 0 < capacity) :
    ofDigits whole fraction =
      .ok ⟨false, Nat.ofDigitChars 10 (whole ++ fraction) 0, fraction.length⟩ := by
  rw [Nat.ofDigitChars_append] at hmantissa ⊢
  have hwhole := le_ofDigitChars fraction (Nat.ofDigitChars 10 whole 0)
  rw [ofDigits_eq_rounded fraction (by omega), readFraction_of_fits (by omega) hmantissa,
    Nat.zero_add]
  simp [Reading.rounded, hmantissa]

end DerivedTelemetry.Decimal
