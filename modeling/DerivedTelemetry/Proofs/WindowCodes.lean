import DerivedTelemetry.Window
import Mathlib.Data.List.DropRight

/-!
# The codes of windows

A code is looked for among six after the blanks around it are gone and its letter is in lower
case.  None of the six has a blank in it, so the codes that are found are exactly those that
are one of the six but for these two liberties.
-/

namespace DerivedTelemetry

namespace Text

/-- Nothing but blanks is trimmed off. -/
theorem exists_trim (chars : List Char) :
    ∃ before after, chars = before ++ trim chars ++ after ∧
      ∀ c ∈ before ++ after, isBlank c = true := by
  let inner := chars.dropWhile isBlank
  have htrim : trim chars = inner.rdropWhile isBlank := rfl
  refine ⟨chars.takeWhile isBlank, inner.rtakeWhile isBlank, ?_, ?_⟩
  · rw [htrim, List.append_assoc, List.rdropWhile_append_rtakeWhile,
      List.takeWhile_append_dropWhile]
  · intro c hc
    rcases List.mem_append.mp hc with hbefore | hafter
    · exact List.mem_takeWhile_imp hbefore
    · exact List.mem_rtakeWhile_imp hafter

theorem dropWhile_isBlank {name : List Char} (h : ∀ c ∈ name, isBlank c = false) :
    name.dropWhile isBlank = name := by
  cases name with
  | nil => rfl
  | cons c rest => rw [List.dropWhile_cons_of_neg (by simp [h c])]

/-- All the blanks around a word are trimmed off. -/
theorem trim_of_blanks {before name after : List Char}
    (hblank : ∀ c ∈ before ++ after, isBlank c = true) (hname : ∀ c ∈ name, isBlank c = false) :
    trim (before ++ name ++ after) = name := by
  have hbefore : ∀ c ∈ before, isBlank c = true := fun c hc =>
    hblank c (List.mem_append_left _ hc)
  have hafter : ∀ c ∈ after.reverse, isBlank c = true := fun c hc =>
    hblank c (List.mem_append_right _ (List.mem_reverse.mp hc))
  have hreverse : ∀ c ∈ name.reverse, isBlank c = false := fun c hc =>
    hname c (List.mem_reverse.mp hc)
  rw [trim, List.append_assoc, List.dropWhile_append_of_pos hbefore]
  cases name with
  | nil =>
    have hnone : after.dropWhile isBlank = [] :=
      List.dropWhile_eq_nil_iff.mpr fun c hc => hafter c (List.mem_reverse.mpr hc)
    rw [List.nil_append, hnone]
    rfl
  | cons c rest =>
    have hfirst : ¬isBlank c = true := by simp [hname c]
    rw [List.cons_append, List.dropWhile_cons_of_neg hfirst, ← List.cons_append,
      List.reverse_append, List.dropWhile_append_of_pos hafter, dropWhile_isBlank hreverse,
      List.reverse_reverse]

/-- A blank has no other case. -/
theorem toLower_of_isBlank {c : Char} (h : isBlank c = true) : c.toLower = c := by
  have hupper : ¬(c.val ≥ 'A'.val ∧ c.val ≤ 'Z'.val) := by
    simp [isBlank, blankRanges] at h
    simp [UInt32.le_iff_toNat_le]
    omega
  delta Char.toLower
  exact dif_neg hupper

end Text

namespace Window

/-- The codes of all windows. -/
theorem map_code_all : all.map code = ["5m", "15m", "1h", "24h", "7d", "30d"] := rfl

theorem not_isBlank_of_mem_code {name : List Char}
    (h : String.ofList (name.map Char.toLower) ∈ ["5m", "15m", "1h", "24h", "7d", "30d"]) :
    ∀ c ∈ name, Text.isBlank c = false := by
  intro c hc
  have hcodes : ∀ code ∈ ["5m", "15m", "1h", "24h", "7d", "30d"],
      code.toList.all (!Text.isBlank ·) = true := by decide
  have hlower : Text.isBlank c.toLower = false := by
    have hall := List.all_eq_true.mp (hcodes _ h) c.toLower
    rw [String.toList_ofList] at hall
    simpa using hall (List.mem_map_of_mem hc)
  cases hblank : Text.isBlank c with
  | false => rfl
  | true =>
    rw [Text.toLower_of_isBlank hblank, hblank] at hlower
    cases hlower

/-- A window is found for what is the code of one, and for nothing else. -/
theorem isSome_ofCode?_iff {code : String} : (ofCode? code).isSome = true ↔ IsCode code := by
  have hfound : (ofCode? code).isSome = true ↔
      String.ofList ((Text.trim code.toList).map Char.toLower) ∈
        ["5m", "15m", "1h", "24h", "7d", "30d"] := by
    rw [← map_code_all, List.mem_map, ofCode?, List.find?_isSome]
    simp only [beq_iff_eq, ← String.toList_inj, String.toList_ofList]
  rw [hfound]
  constructor
  · intro hcode
    obtain ⟨before, after, hsplit, hblank⟩ := Text.exists_trim code.toList
    exact ⟨before, Text.trim code.toList, after, hsplit, hblank, hcode⟩
  · rintro ⟨before, name, after, hsplit, hblank, hcode⟩
    rwa [hsplit, Text.trim_of_blanks hblank (not_isBlank_of_mem_code hcode)]

end Window

end DerivedTelemetry
