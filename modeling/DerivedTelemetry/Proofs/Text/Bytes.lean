import DerivedTelemetry.Expression.Lexer
import Mathlib.Data.List.Basic

/-!
# Characters and bytes

Texts are read character by character, while offsets count bytes and names are listed in
the order of their bytes.  In UTF-8 neither makes a difference to what a text is.  The bytes
of a text are those of its characters one after the other, and since a greater character has
the greater first byte among those that differ, texts are in the same order either way.
-/

namespace DerivedTelemetry.Text

/-- A text in UTF-8. -/
def bytes (chars : List Char) : List UInt8 := chars.flatMap String.utf8EncodeChar

@[simp]
theorem bytes_nil : bytes [] = [] := rfl

@[simp]
theorem bytes_cons (c : Char) (rest : List Char) :
    bytes (c :: rest) = String.utf8EncodeChar c ++ bytes rest := rfl

@[simp]
theorem bytes_append (front back : List Char) : bytes (front ++ back) = bytes front ++ bytes back :=
  List.flatMap_append

/-- These are the bytes that a text consists of. -/
theorem toByteArray_eq (text : String) : text.toByteArray = (bytes text.toList).toByteArray := by
  conv => lhs; rw [← String.ofList_toList (s := text)]
  exact String.toByteArray_ofList

@[simp]
theorem length_bytes (chars : List Char) : (bytes chars).length = Lexer.byteCount chars := by
  induction chars with
  | nil => rfl
  | cons c rest ih => simp [Lexer.byteCount, ih]

theorem byteCount_toList (text : String) : Lexer.byteCount text.toList = text.utf8ByteSize := by
  rw [← length_bytes, ← String.size_toByteArray, toByteArray_eq, List.size_toByteArray]

theorem getElem?_bytes (text : String) {offset : Nat} (h : offset < text.toByteArray.size) :
    (bytes text.toList)[offset]? = some text.toByteArray[offset] := by
  have hlength : offset < (bytes text.toList).length := by
    simpa [byteCount_toList] using h
  rw [List.getElem?_eq_getElem hlength, List.getElem_eq_getElem_toByteArray]
  simp only [toByteArray_eq text]

/-- A piece of a text has its place among the bytes. -/
theorem extract_bytes (before piece after : List Char) :
    (bytes (before ++ piece ++ after)).toByteArray.extract (Lexer.byteCount before)
        (Lexer.byteCount before + Lexer.byteCount piece) = (String.ofList piece).toByteArray := by
  rw [bytes_append, bytes_append, List.append_assoc, List.toByteArray_append,
    List.toByteArray_append, ← length_bytes, ← length_bytes, ← List.size_toByteArray,
    ← List.size_toByteArray]
  have hpiece := ByteArray.extract_append_size_add (a := (bytes before).toByteArray)
    (b := (bytes piece).toByteArray ++ (bytes after).toByteArray) (i := 0)
    (j := (bytes piece).toByteArray.size)
  rw [Nat.add_zero] at hpiece
  rw [hpiece, ByteArray.extract_append_eq_left rfl, String.toByteArray_ofList]
  rfl

/-! ### Bytes taken for characters -/

/-- A byte of a character is the character by itself, or both are beyond ASCII. -/
theorem ofUInt8_of_mem_encode {c : Char} {byte : UInt8} (h : byte ∈ String.utf8EncodeChar c) :
    Char.ofUInt8 byte = c ∨ 128 ≤ c.toNat ∧ 128 ≤ (Char.ofUInt8 byte).toNat := by
  have hbyte : (Char.ofUInt8 byte).toNat = byte.toNat := UInt8.toNat_toUInt32 byte
  have hvalue : c.val.toNat = c.toNat := Char.toNat_val
  unfold String.utf8EncodeChar at h
  rw [hvalue] at h
  dsimp only at h
  split at h
  · left
    apply Char.toNat_inj.mp
    rw [hbyte, List.mem_singleton.mp h]
    simp
    omega
  · refine .inr ⟨by omega, ?_⟩
    rw [hbyte]
    generalize c.toNat = n at h
    split_ifs at h <;> simp only [List.mem_cons, List.not_mem_nil, or_false] at h
    · rcases h with rfl | rfl <;> simp <;> omega
    · rcases h with rfl | rfl | rfl <;> simp <;> omega
    · rcases h with rfl | rfl | rfl | rfl <;> simp <;> omega

/-- A test that does not tell characters beyond ASCII from one another. -/
def AsciiTest (test : Char → Bool) : Prop := ∃ answer, ∀ c : Char, 128 ≤ c.toNat → test c = answer

/-- Such a test says of every byte of a character what it says of the character. -/
theorem AsciiTest.of_mem_encode {test : Char → Bool} (htest : AsciiTest test) {c : Char}
    {byte : UInt8} (h : byte ∈ String.utf8EncodeChar c) : test (Char.ofUInt8 byte) = test c := by
  obtain ⟨answer, hbeyond⟩ := htest
  rcases ofUInt8_of_mem_encode h with hself | ⟨hc, hbyte⟩
  · rw [hself]
  · rw [hbeyond c hc, hbeyond _ hbyte]

/-- Bytes are taken from a text up to where characters are. -/
theorem takeWhile_bytes {test : Char → Bool} (htest : AsciiTest test) (chars : List Char) :
    ((bytes chars).takeWhile fun byte => test (Char.ofUInt8 byte)) =
      bytes (chars.takeWhile test) := by
  induction chars with
  | nil => rfl
  | cons c rest ih =>
    rw [bytes_cons, List.takeWhile_cons]
    cases hc : test c with
    | true =>
      rw [List.takeWhile_append_of_pos fun byte hbyte => (htest.of_mem_encode hbyte).trans hc, ih]
      rfl
    | false =>
      rcases hbytes : String.utf8EncodeChar c with _ | ⟨first, others⟩
      · exact absurd hbytes String.utf8EncodeChar_ne_nil
      · have hfirst : test (Char.ofUInt8 first) = false :=
          (htest.of_mem_encode (by simp [hbytes])).trans hc
        simp [hfirst]

theorem asciiTest_of_imp {test : Char → Bool} (h : ∀ c, test c = true → c.toNat < 128) :
    AsciiTest test := by
  refine ⟨false, fun c hc => ?_⟩
  rw [← Bool.not_eq_true]
  exact fun htrue => absurd (h c htrue) (Nat.not_lt.mpr hc)

theorem asciiTest_beq {mark : Char} (h : mark.toNat < 128) : AsciiTest (· == mark) :=
  asciiTest_of_imp fun c hc => by rwa [beq_iff_eq.mp hc]

theorem asciiTest_bne {mark : Char} (h : mark.toNat < 128) : AsciiTest (· != mark) := by
  obtain ⟨answer, hbeyond⟩ := asciiTest_beq h
  exact ⟨!answer, fun c hc => congrArg (!·) (hbeyond c hc)⟩

/-! ### The order of texts -/

private theorem ofNat_lt {m n : Nat} (hm : m < 256) (hn : n < 256) :
    UInt8.ofNat m < UInt8.ofNat n ↔ m < n := by
  simp [UInt8.lt_iff_toNat_lt, Nat.mod_eq_of_lt hm, Nat.mod_eq_of_lt hn]

private theorem ofNat_eq {m n : Nat} (hm : m < 256) (hn : n < 256) :
    UInt8.ofNat m = UInt8.ofNat n ↔ m = n := by
  simp [← UInt8.toNat_inj, Nat.mod_eq_of_lt hm, Nat.mod_eq_of_lt hn]

/-- The bytes of a lesser character are less, whatever follows them. -/
theorem encoded_lt {c d : Char} (h : c < d) (front back : List UInt8) :
    String.utf8EncodeChar c ++ front < String.utf8EncodeChar d ++ back := by
  have hless : c.val.toNat < d.val.toNat := UInt32.lt_iff_toNat_lt.mp h
  have hbound : d.val.toNat < 0x110000 := by
    have hvalid := d.valid
    simp only [UInt32.isValidChar, Nat.isValidChar] at hvalid
    omega
  unfold String.utf8EncodeChar
  generalize c.val.toNat = m at hless ⊢
  generalize d.val.toNat = n at hless hbound ⊢
  -- Every byte but the first holds six bits, so each is a digit to the base 64.
  have hdigits : ∀ k : Nat, k / 4096 = k / 64 / 64 ∧ k / 262144 = k / 64 / 64 / 64 := by
    intro k
    omega
  -- The lesser one takes up no more bytes, and the first byte grows with their number.
  dsimp only
  split_ifs
  all_goals
    simp only [List.cons_append, List.cons_lt_cons_iff]
    simp (disch := omega) only [ofNat_lt, ofNat_eq, hdigits]
    omega

/-- Texts are in the order of their bytes. -/
theorem bytes_lt {a b : List Char} (h : a < b) : bytes a < bytes b := by
  induction h with
  | nil =>
    rename_i c rest
    rcases hbytes : String.utf8EncodeChar c with _ | ⟨first, others⟩
    · exact absurd hbytes String.utf8EncodeChar_ne_nil
    · rw [bytes_cons, hbytes]
      exact List.nil_lt_cons _ _
  | rel hless => exact encoded_lt hless _ _
  | cons _ ih => exact List.append_left_lt ih

end DerivedTelemetry.Text
