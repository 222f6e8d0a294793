import DerivedTelemetry.Decimal.Checked
import DerivedTelemetry.Proofs.Decimal.Bounds

/-!
# Numbers from digits and from doubles

Two kinds of numbers enter a calculation from outside of it and are put together digit by
digit: the literals of an expression, and the doubles that a function has computed.  Both
are built so that no step leaves the bounds of a representable number.
-/

namespace DerivedTelemetry.Decimal

/-! ### Literals -/

theorem lt_capacity_of_readWhole {mantissa result : Nat} {digits : List Char}
    (hmantissa : mantissa < capacity) (h : readWhole mantissa digits = .ok result) :
    result < capacity := by
  induction digits generalizing mantissa with
  | nil =>
    cases h
    exact hmantissa
  | cons c rest ih =>
    rw [readWhole] at h
    split at h
    · rename_i hnext
      exact ih hnext h
    · cases h

theorem readFraction_bounded {mantissa scale : Nat} (digits : List Char)
    (hmantissa : mantissa < capacity) (hscale : scale ≤ maxScale) :
    (readFraction mantissa scale digits).mantissa < capacity ∧
      (readFraction mantissa scale digits).scale ≤ maxScale := by
  induction digits generalizing mantissa scale with
  | nil => exact ⟨hmantissa, hscale⟩
  | cons c rest ih =>
    rw [readFraction]
    split
    · rename_i hroom
      exact ih hroom.2 hroom.1
    · exact ⟨hmantissa, hscale⟩

theorem Reading.wellFormed_of_rounded {reading : Reading} {value : Decimal}
    (hmantissa : reading.mantissa < capacity) (hscale : reading.scale ≤ maxScale)
    (h : reading.rounded = .ok value) : value.WellFormed := by
  have hraise : ∀ raise : Nat, raise ≤ 1 →
      (if reading.mantissa + raise < capacity then
          .ok ⟨false, reading.mantissa + raise, reading.scale⟩
        else if reading.scale = 0 then .error .mantissaAfterRounding
        else .ok ⟨false, (reading.mantissa + raise + 4) / 10, reading.scale - 1⟩ :
          Except LiteralError Decimal) = .ok value → value.WellFormed := by
    intro raise hle hvalue
    split at hvalue
    · rename_i hfits
      cases hvalue
      exact ⟨hfits, hscale⟩
    · split at hvalue
      · cases hvalue
      · cases hvalue
        have hten : 10 ≤ capacity := by decide +kernel
        refine ⟨?_, Nat.le_trans (Nat.sub_le _ 1) hscale⟩
        dsimp only
        omega
  rw [Reading.rounded] at h
  split at h
  · exact hraise 0 (by decide) h
  · split at h
    · exact hraise 1 (by decide) h
    · exact hraise 0 (by decide) h

/-- Every literal that can be read is representable. -/
theorem wellFormed_of_ofDigits {whole fraction : List Char} {value : Decimal}
    (h : ofDigits whole fraction = .ok value) : value.WellFormed := by
  rw [ofDigits] at h
  cases hwhole : readWhole 0 whole with
  | error cause =>
    rw [hwhole] at h
    cases h
  | ok mantissa =>
    rw [hwhole] at h
    have hmantissa : mantissa < capacity := lt_capacity_of_readWhole (by decide +kernel) hwhole
    obtain ⟨hbounded, hscale⟩ := readFraction_bounded fraction hmantissa (Nat.zero_le maxScale)
    exact Reading.wellFormed_of_rounded hbounded hscale h

/-! ### Doubles -/

theorem fivesIn_lt {r : Rescaled} (count : Nat) (h : r.mantissa < capacity) :
    (fivesIn r count).mantissa < capacity := by
  induction count generalizing r with
  | zero => exact h
  | succ count ih =>
    have hhalf : r.mantissa / 2 < capacity := Nat.lt_of_le_of_lt (Nat.div_le_self _ 2) h
    rw [fivesIn]
    split
    · exact ih hhalf
    · split
      · rename_i hroom
        exact ih hroom
      · exact ih hhalf

theorem fivesOut?_lt {r result : Rescaled} {count : Nat} (h : r.mantissa < capacity)
    (hresult : fivesOut? r count = some result) : result.mantissa < capacity := by
  induction count generalizing r with
  | zero =>
    obtain rfl := Option.some.inj hresult
    exact h
  | succ count ih =>
    rw [fivesOut?] at hresult
    split at hresult
    · rename_i hroom
      have hdouble : r.mantissa * 2 < twoTo 95 * 2 := Nat.mul_lt_mul_of_pos_right hroom (by decide)
      exact ih hdouble hresult
    · split at hresult
      · cases hresult
      · exact ih (Nat.lt_of_le_of_lt (Nat.div_le_self r.mantissa 5) h) hresult

theorem tensIn?_lt {mantissa result count : Nat} (h : mantissa < capacity)
    (hresult : tensIn? mantissa count = some result) : result < capacity := by
  induction count generalizing mantissa with
  | zero =>
    obtain rfl := Option.some.inj hresult
    exact h
  | succ count ih =>
    rw [tensIn?] at hresult
    split at hresult
    · rename_i hroom
      exact ih hroom hresult
    · cases hresult

theorem dropDigit_le (mantissa : Nat) : dropDigit mantissa ≤ mantissa := by
  rw [dropDigit]
  split <;> omega

theorem dropExcess?_le {mantissa result count : Nat}
    (hresult : dropExcess? mantissa count = some result) : result ≤ mantissa := by
  induction count generalizing mantissa with
  | zero => exact Nat.le_of_eq (Option.some.inj hresult).symm
  | succ count ih =>
    rw [dropExcess?] at hresult
    split at hresult
    · cases hresult
    · exact Nat.le_trans (ih hresult) (dropDigit_le mantissa)

theorem dropBinaryDigits_le (mantissa scale : Nat) :
    (dropBinaryDigits mantissa scale).1 ≤ mantissa ∧
      (dropBinaryDigits mantissa scale).2 ≤ scale := by
  induction scale generalizing mantissa with
  | zero => exact ⟨Nat.le_refl mantissa, Nat.le_refl 0⟩
  | succ scale ih =>
    rw [dropBinaryDigits]
    split
    · obtain ⟨hmantissa, hscale⟩ := ih (dropDigit mantissa)
      exact ⟨Nat.le_trans hmantissa (dropDigit_le mantissa), Nat.le_succ_of_le hscale⟩
    · exact ⟨Nat.le_refl mantissa, Nat.le_refl (scale + 1)⟩

theorem stripZeros_le (negative : Bool) (mantissa scale : Nat) :
    (stripZeros negative mantissa scale).mantissa ≤ mantissa ∧
      (stripZeros negative mantissa scale).scale ≤ scale := by
  induction scale generalizing mantissa with
  | zero => exact ⟨Nat.le_refl mantissa, Nat.le_refl 0⟩
  | succ scale ih =>
    rw [stripZeros]
    split
    · obtain ⟨hmantissa, hscale⟩ := ih (mantissa / 10)
      exact ⟨Nat.le_trans hmantissa (Nat.div_le_self mantissa 10), Nat.le_succ_of_le hscale⟩
    · exact ⟨Nat.le_refl mantissa, Nat.le_refl (scale + 1)⟩

theorem wellFormed_of_settle? {negative : Bool} {r : Rescaled} {value : Decimal}
    (hr : r.mantissa < capacity) (h : settle? negative r = some value) : value.WellFormed := by
  rw [settle?] at h
  split at h
  · obtain ⟨mantissa, hmantissa, rfl⟩ := Option.map_eq_some_iff.mp h
    exact ⟨tensIn?_lt hr hmantissa, Nat.zero_le maxScale⟩
  · dsimp only at h
    split at h
    · obtain rfl := Option.some.inj h
      exact ⟨(by decide +kernel : 0 < capacity), Nat.zero_le maxScale⟩
    · rename_i mantissa hmantissa
      obtain rfl := Option.some.inj h
      obtain ⟨hkept, hplaces⟩ := dropBinaryDigits_le mantissa (min (-r.exponent).toNat maxScale)
      obtain ⟨hstripped, hscale⟩ := stripZeros_le negative
        (dropBinaryDigits mantissa (min (-r.exponent).toNat maxScale)).1
        (dropBinaryDigits mantissa (min (-r.exponent).toNat maxScale)).2
      have hdropped : mantissa ≤ r.mantissa := dropExcess?_le hmantissa
      constructor
      · exact Nat.lt_of_le_of_lt (Nat.le_trans hstripped (Nat.le_trans hkept hdropped)) hr
      · exact Nat.le_trans hscale (Nat.le_trans hplaces (Nat.min_le_right _ maxScale))

theorem wellFormed_of_ofParts? {parts : Binary64.Parts} {value : Decimal}
    (hparts : parts.significand < capacity) (h : ofParts? parts = some value) :
    value.WellFormed := by
  rw [ofParts?] at h
  split at h
  · obtain rfl := Option.some.inj h
    exact ⟨(by decide +kernel : 0 < capacity), Nat.zero_le maxScale⟩
  · dsimp only at h
    split at h
    · exact wellFormed_of_settle? (fivesIn_lt _ hparts) h
    · obtain ⟨r, hr, hsettled⟩ := Option.bind_eq_some_iff.mp h
      exact wellFormed_of_settle? (fivesOut?_lt hparts hr) hsettled

end DerivedTelemetry.Decimal

namespace DerivedTelemetry

/-- The significand of a finite double is far below the capacity of a mantissa. -/
theorem Binary64.significand_lt_of_parts? {x : Float} {parts : Parts}
    (h : parts? x = some parts) : parts.significand < Decimal.capacity := by
  have hfraction : x.toBits.toNat % twoTo 52 < twoTo 52 := Nat.mod_lt _ (by decide +kernel)
  have hcapacity : hiddenBit + twoTo 52 ≤ Decimal.capacity := by decide +kernel
  rw [parts?] at h
  split at h
  · cases h
  · split at h
    · obtain rfl := Option.some.inj h
      dsimp only
      omega
    · obtain rfl := Option.some.inj h
      dsimp only
      omega

/-- Whatever double a function has computed, what becomes of it is representable. -/
theorem Checked.wellFormed_of_ofDouble {function : String} {x : Float} {value : Decimal}
    (h : ofDouble function x = .ok value) : value.WellFormed := by
  rw [ofDouble] at h
  split at h
  · cases h
  · rename_i parts hparts
    cases hvalue : Decimal.ofParts? parts with
    | none =>
      rw [hvalue] at h
      cases h
    | some result =>
      rw [hvalue] at h
      cases h
      exact Decimal.wellFormed_of_ofParts? (Binary64.significand_lt_of_parts? hparts) hvalue

end DerivedTelemetry
