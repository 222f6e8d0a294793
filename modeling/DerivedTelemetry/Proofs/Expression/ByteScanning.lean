import DerivedTelemetry.Expression.ByteScanner
import DerivedTelemetry.Proofs.Expression.Scanning
import DerivedTelemetry.Proofs.Text.Bytes

/-!
# Runs over bytes that follow the characters

A scan over bytes has an offset where a scan over characters has a list of what is ahead.
The two are compared at places between characters: there the byte that is read tells as much
as the character that it belongs to, a test that only singles out ASCII characters stops both
scans at the same place, and what lies between two such places can be cut out.
-/

namespace DerivedTelemetry.ByteScanner

open Lexer (byteCount byteCount_append byteCount_cons)
open Text

/-! ### Runs that agree -/

/-- A run agrees with what is expected of it if it comes to that, and all the pieces fit that
it has cut out of the text. -/
structure Agrees {α : Type} (source : String) (run : Run α) (expected : Except ParseFault α) :
    Prop where
  fits : ∀ piece ∈ run.pieces, piece.Fits source
  result : run.result = expected.mapError .fault

namespace Agrees

variable {α β : Type} {source : String} {first : Run α} {second : α → Run β}

theorem pure (value : α) : Agrees source (Pure.pure value) (.ok value) :=
  ⟨List.forall_mem_nil _, rfl⟩

theorem fault (cause : ParseFault) : Agrees source (Run.fault cause : Run α) (.error cause) :=
  ⟨List.forall_mem_nil _, rfl⟩

/-- A run whose first part comes to a value goes on with it. -/
theorem next {value : α} {expected : Except ParseFault β}
    (hfirst : Agrees source first (.ok value))
    (hsecond : Agrees source (second value) expected) :
    Agrees source (first >>= second) expected := by
  have hresult : first.result = .ok value := hfirst.result
  have hbind : first >>= second =
      ⟨first.pieces ++ (second value).pieces, (second value).result⟩ := by
    change Run.bind first second = _
    simp only [Run.bind, hresult]
  rw [hbind]
  exact ⟨List.forall_mem_append.mpr ⟨hfirst.fits, hsecond.fits⟩, hsecond.result⟩

/-- A run whose first part meets a fault ends with it. -/
theorem stops {cause : ParseFault} (hfirst : Agrees source first (.error cause)) :
    Agrees source (first >>= second) (.error cause) := by
  have hresult : first.result = .error (.fault cause) := hfirst.result
  have hbind : first >>= second = ⟨first.pieces, .error (.fault cause)⟩ := by
    change Run.bind first second = _
    simp only [Run.bind, hresult]
  rw [hbind]
  exact ⟨hfirst.fits, rfl⟩

theorem map {expected : Except ParseFault α} {f : α → β} (h : Agrees source first expected) :
    Agrees source (first >>= fun value => Pure.pure (f value)) (expected.map f) := by
  cases expected with
  | error cause => exact h.stops
  | ok value => exact h.next (.pure _)

end Agrees

section Places

variable {source : String} {before rest : List Char}

/-! ### Places between characters -/

theorem byteCount_of_split (h : source.toList = before ++ rest) :
    byteCount before + byteCount rest = source.utf8ByteSize := by
  rw [← byteCount_append, ← h, byteCount_toList]

theorem isValid_of_split (h : source.toList = before ++ rest) :
    (⟨byteCount before⟩ : String.Pos.Raw).IsValid source := by
  refine String.Pos.Raw.isValid_iff_exists_append.mpr
    ⟨String.ofList before, String.ofList rest, ?_, ?_⟩
  · rw [← String.ofList_append, ← h, String.ofList_toList]
  · rw [String.Pos.Raw.ext_iff, String.byteIdx_rawEndPos, ← byteCount_toList,
      String.toList_ofList]

/-- Whole characters can be cut out. -/
theorem cut_agrees {piece after : List Char} (h : source.toList = before ++ piece ++ after) :
    Agrees source (cut source (byteCount before) (byteCount before + byteCount piece))
      (.ok (String.ofList piece)) := by
  have hstart : (⟨byteCount before⟩ : String.Pos.Raw).IsValid source :=
    isValid_of_split (h.trans (List.append_assoc ..))
  have hstop : (⟨byteCount before + byteCount piece⟩ : String.Pos.Raw).IsValid source := by
    rw [← byteCount_append]
    exact isValid_of_split h
  have hwithin : byteCount before + byteCount piece ≤ source.utf8ByteSize := by
    rw [← byteCount_of_split h, byteCount_append]
    exact Nat.le_add_right _ _
  have hfits : Piece.Fits ⟨byteCount before, byteCount before + byteCount piece⟩ source :=
    ⟨Nat.le_add_right _ _, hwithin, hstart, hstop⟩
  have htext : String.extract ⟨_, hstart⟩ ⟨_, hstop⟩ = String.ofList piece := by
    rw [← String.toByteArray_inj, String.toByteArray_extract, toByteArray_eq, h]
    exact extract_bytes before piece after
  have hcut : cut source (byteCount before) (byteCount before + byteCount piece) =
      ⟨[⟨byteCount before, byteCount before + byteCount piece⟩], .ok (String.ofList piece)⟩ := by
    rw [← htext]
    exact dif_pos hfits
  rw [hcut]
  exact ⟨List.forall_mem_singleton.mpr hfits, rfl⟩

/-! ### Bytes -/

theorem charAt_agrees {front back : List UInt8} {byte : UInt8}
    (hbytes : bytes source.toList = front ++ byte :: back) :
    Agrees source (charAt source front.length) (.ok (Char.ofUInt8 byte)) := by
  have hsize : front.length < source.toByteArray.size := by
    rw [String.size_toByteArray, ← byteCount_toList, ← length_bytes, hbytes]
    simp
  have hbyte : source.toByteArray[front.length] = byte := by
    have hget := getElem?_bytes source hsize
    rw [hbytes] at hget
    simpa using hget.symm
  rw [charAt, dif_pos hsize, hbyte]
  exact .pure _

/-- What is read where a character stands is one of its bytes. -/
theorem exists_charAt_agrees {c : Char} (h : source.toList = before ++ c :: rest) :
    ∃ byte ∈ String.utf8EncodeChar c,
      Agrees source (charAt source (byteCount before)) (.ok (Char.ofUInt8 byte)) := by
  rcases hencoded : String.utf8EncodeChar c with _ | ⟨byte, others⟩
  · exact absurd hencoded String.utf8EncodeChar_ne_nil
  · have hbytes : bytes source.toList = bytes before ++ byte :: (others ++ bytes rest) := by
      rw [h, bytes_append, bytes_cons, hencoded, List.cons_append]
    refine ⟨byte, List.mem_cons_self, ?_⟩
    rw [← length_bytes]
    exact charAt_agrees hbytes

theorem skipWhile_bytes (test : Char → Bool) {front back : List UInt8}
    (hbytes : bytes source.toList = front ++ back) :
    Agrees source (skipWhile test source front.length)
      (.ok (front.length + (back.takeWhile fun byte => test (Char.ofUInt8 byte)).length)) := by
  have hsize : source.utf8ByteSize = front.length + back.length := by
    rw [← byteCount_toList, ← length_bytes, hbytes, List.length_append]
  induction back generalizing front with
  | nil =>
    rw [skipWhile, if_neg (by simp [hsize])]
    exact .pure _
  | cons byte back ih =>
    rw [skipWhile, if_pos (by simp [hsize])]
    refine (charAt_agrees hbytes).next ?_
    cases htest : test (Char.ofUInt8 byte) with
    | false => simpa [htest] using Agrees.pure _
    | true =>
      have hlater := @ih (front ++ [byte]) (by simp [hbytes]) (by simp [hsize]; omega)
      simpa [htest, Nat.add_assoc, Nat.add_comm 1] using hlater

/-- A scan over bytes stops where the scan over characters does. -/
theorem skipWhile_agrees {test : Char → Bool} (htest : AsciiTest test)
    (h : source.toList = before ++ rest) :
    Agrees source (skipWhile test source (byteCount before))
      (.ok (byteCount before + byteCount (rest.takeWhile test))) := by
  have hskip := skipWhile_bytes test (h ▸ bytes_append before rest : bytes source.toList = _)
  rwa [takeWhile_bytes htest, length_bytes, length_bytes] at hskip

theorem isAt_agrees {mark : Char} (hmark : mark.toNat < 128) (h : source.toList = before ++ rest) :
    Agrees source (isAt source (byteCount before) mark) (.ok (rest.head? == some mark)) := by
  have hsize := byteCount_of_split h
  rw [isAt]
  cases rest with
  | nil =>
    rw [if_neg (by simp [← hsize, byteCount])]
    exact .pure _
  | cons c tail =>
    have hpos := c.utf8Size_pos
    rw [if_pos (by rw [byteCount_cons] at hsize; omega)]
    obtain ⟨byte, hbyte, hread⟩ := exists_charAt_agrees h
    refine hread.next ?_
    rw [(asciiTest_beq hmark).of_mem_encode hbyte]
    exact .pure _

end Places

end DerivedTelemetry.ByteScanner
