import DerivedTelemetry.Proofs.Expression.Reach
import DerivedTelemetry.Proofs.Text.Bytes

/-!
# Every byte belongs to one token

Messages point into an expression by byte offsets, and the offset of a token is all that is
kept of its place.  The places are right: the tokens of a text are, in their order, pieces of
it that do not overlap, with nothing but separators around them, and each piece is read by
itself as the token that it has become.
-/

namespace DerivedTelemetry.Lexer

open Text

/-- The bytes that may stand between lexemes: space, tab, carriage return and line feed. -/
def separatorBytes : List UInt8 := [0x20, 0x09, 0x0d, 0x0a]

/-- These lexemes are pieces of the source. -/
structure Segments (source : String) (lexemes : List Placed) : Prop where
  /-- They do not overlap and are in their order. -/
  ordered : lexemes.Pairwise fun first second => first.stop ≤ second.start
  nonempty : ∀ l ∈ lexemes, l.start < l.stop
  within : ∀ l ∈ lexemes, l.stop ≤ source.utf8ByteSize
  extracted : ∀ l ∈ lexemes,
    source.toByteArray.extract l.start l.stop = (String.ofList l.text).toByteArray
  /-- Each of them by itself is the token that it is in the source. -/
  alone : ∀ l ∈ lexemes,
    tokens l.text = .ok [⟨l.symbol, 0⟩, ⟨.finish, l.stop - l.start⟩]
  /-- Every byte of the source belongs to one of them or separates them. -/
  covered : ∀ offset (_ : offset < source.toByteArray.size),
    (∃ l ∈ lexemes, l.start ≤ offset ∧ offset < l.stop) ∨
      source.toByteArray[offset] ∈ separatorBytes

theorem byteCount_pos {chars : List Char} (h : chars ≠ []) : 0 < byteCount chars := by
  cases chars with
  | nil => exact absurd rfl h
  | cons c rest => exact Nat.add_pos_left c.utf8Size_pos _

theorem encode_of_isSeparator {c : Char} (h : isSeparator c = true) :
    ∃ byte ∈ separatorBytes, String.utf8EncodeChar c = [byte] := by
  rcases isSeparator_cases h with rfl | rfl | rfl | rfl
  · exact ⟨0x20, by decide, rfl⟩
  · exact ⟨0x09, by decide, rfl⟩
  · exact ⟨0x0d, by decide, rfl⟩
  · exact ⟨0x0a, by decide, rfl⟩

namespace Scans

variable {position : Nat} {chars : List Char} {lexemes : List Placed}

/-! ### What is true along a scan -/

theorem reads (h : Scans position chars lexemes) : ∀ l ∈ lexemes, Reads l.text l.symbol := by
  induction h with
  | finish => simp
  | separator _ _ ih => exact ih
  | lexeme _ hnext _ ih => simpa using ⟨reads_of_lexeme hnext, ih⟩

/-- Each lexeme is a piece of the text, and its start counts the bytes in front of it. -/
theorem exists_around (h : Scans position chars lexemes) :
    ∀ l ∈ lexemes, ∃ before after,
      chars = before ++ l.text ++ after ∧ l.start = position + byteCount before := by
  induction h with
  | finish => simp
  | @separator position c rest lexemes _ _ ih =>
    intro l hl
    obtain ⟨before, after, hrest, hstart⟩ := ih l hl
    exact ⟨c :: before, after, by simp [hrest], by rw [hstart, byteCount_cons, Nat.add_assoc]⟩
  | @lexeme position c rest next lexemes _ hnext _ ih =>
    have hwhole := text_append_rest hnext
    intro l hl
    rcases List.mem_cons.mp hl with rfl | hlater
    · exact ⟨[], next.rest, hwhole.symm, rfl⟩
    · obtain ⟨before, after, hrest, hstart⟩ := ih l hlater
      refine ⟨next.text ++ before, after, ?_, by rw [hstart, byteCount_append, Nat.add_assoc]⟩
      rw [← hwhole, hrest]
      simp

theorem le_start (h : Scans position chars lexemes) : ∀ l ∈ lexemes, position ≤ l.start := by
  intro l hl
  obtain ⟨before, _, _, hstart⟩ := h.exists_around l hl
  omega

theorem stop_le (h : Scans position chars lexemes) :
    ∀ l ∈ lexemes, l.stop ≤ position + byteCount chars := by
  intro l hl
  obtain ⟨before, after, hchars, hstart⟩ := h.exists_around l hl
  rw [Placed.stop, hstart, hchars, byteCount_append, byteCount_append]
  omega

theorem start_lt_stop (h : Scans position chars lexemes) : ∀ l ∈ lexemes, l.start < l.stop :=
  fun l hl => Nat.lt_add_of_pos_right (byteCount_pos (h.reads l hl).text_ne_nil)

theorem ordered (h : Scans position chars lexemes) :
    lexemes.Pairwise fun first second => first.stop ≤ second.start := by
  induction h with
  | finish => exact .nil
  | separator _ _ ih => exact ih
  | lexeme _ _ hrest ih => exact .cons hrest.le_start ih

/-- Every byte of the text belongs to a lexeme or to a separator. -/
theorem covered (h : Scans position chars lexemes) {offset : Nat} {byte : UInt8}
    (hbyte : (bytes chars)[offset]? = some byte) :
    (∃ l ∈ lexemes, l.start ≤ position + offset ∧ position + offset < l.stop) ∨
      byte ∈ separatorBytes := by
  induction h generalizing offset with
  | finish => simp at hbyte
  | @separator position c rest lexemes hseparator _ ih =>
    obtain ⟨only, hmem, hencoded⟩ := encode_of_isSeparator hseparator
    have hsize : c.utf8Size = 1 := by rw [← String.length_utf8EncodeChar, hencoded]; rfl
    rw [bytes_cons, hencoded] at hbyte
    cases offset with
    | zero =>
      cases hbyte
      exact .inr hmem
    | succ offset =>
      rw [List.singleton_append, List.getElem?_cons_succ] at hbyte
      have hlater := ih hbyte
      rwa [hsize, Nat.add_assoc, Nat.add_comm 1] at hlater
  | @lexeme position c rest next lexemes _ hnext _ ih =>
    by_cases hhere : offset < byteCount next.text
    · exact .inl ⟨_, List.mem_cons_self, Nat.le_add_right _ _, Nat.add_lt_add_left hhere _⟩
    · obtain ⟨further, rfl⟩ := Nat.exists_eq_add_of_le (Nat.le_of_not_lt hhere)
      rw [← text_append_rest hnext, bytes_append, List.getElem?_append_right (by simp),
        length_bytes, Nat.add_sub_cancel_left] at hbyte
      rw [← Nat.add_assoc]
      rcases ih hbyte with ⟨l, hl, hinside⟩ | hmem
      · exact .inl ⟨l, List.mem_cons_of_mem _ hl, hinside⟩
      · exact .inr hmem

end Scans

/-! ### The tokens of a text -/

theorem segments_of_scans {source : String} {lexemes : List Placed}
    (h : Scans 0 source.toList lexemes) : Segments source lexemes where
  ordered := h.ordered
  nonempty := h.start_lt_stop
  within l hl := by simpa [byteCount_toList] using h.stop_le l hl
  extracted l hl := by
    obtain ⟨before, after, hsource, hstart⟩ := h.exists_around l hl
    rw [Nat.zero_add] at hstart
    rw [toByteArray_eq, hsource, Placed.stop, hstart]
    exact extract_bytes before l.text after
  alone l hl := by
    rw [tokens_of_reads (h.reads l hl), Placed.stop, Nat.add_sub_cancel_left]
  covered offset hoffset := by simpa using h.covered (getElem?_bytes source hoffset)

/-- The tokens of a text are pieces of it, each in its place, and the end: their offsets
increase strictly, the pieces do not overlap, what lies between them separates them, and each
piece by itself is read as its token. -/
theorem tokens_segments {source : String} {result : List Token}
    (h : tokens source.toList = .ok result) :
    ∃ lexemes : List Placed,
      result = lexemes.map Placed.token ++ [⟨.finish, source.utf8ByteSize⟩] ∧
        (∀ l ∈ lexemes, l.symbol ≠ .finish) ∧
        result.Pairwise (fun first second => first.position < second.position) ∧
        Segments source lexemes := by
  obtain ⟨lexemes, hscans, hresult⟩ := exists_scans_of_tokens h
  rw [byteCount_toList] at hresult
  have hsegments := segments_of_scans hscans
  refine ⟨lexemes, hresult, fun l hl => (hscans.spelled l hl).ne_finish, ?_, hsegments⟩
  rw [hresult, List.pairwise_append, List.pairwise_map]
  refine ⟨?_, List.pairwise_singleton _ _, ?_⟩
  · exact hsegments.ordered.imp_of_mem fun hfirst _ hle =>
      Nat.lt_of_lt_of_le (hsegments.nonempty _ hfirst) hle
  · have hend : ∀ l ∈ lexemes, l.start < source.utf8ByteSize :=
      fun l hl => Nat.lt_of_lt_of_le (hsegments.nonempty l hl) (hsegments.within l hl)
    simpa [Placed.token] using hend

/-- Numbers that touch, a quote in other quotes, and separators of which some are quoted. -/
theorem tokens_segments_of_touching :
    let source := "1.2.3\t>='\"ü, \"'"
    let result : List Token :=
      [⟨.number ⟨false, 12, 1⟩, 0⟩, ⟨.number ⟨false, 3, 1⟩, 3⟩, ⟨.greaterEqual, 6⟩,
        ⟨.quoted "\"ü, \"", 8⟩, ⟨.finish, 16⟩]
    tokens source.toList = .ok result ∧
      ∃ lexemes : List Placed,
        result = lexemes.map Placed.token ++ [⟨.finish, source.utf8ByteSize⟩] ∧
          (∀ l ∈ lexemes, l.symbol ≠ .finish) ∧
          result.Pairwise (fun first second => first.position < second.position) ∧
          Segments source lexemes := by
  intro source result
  have htokens : tokens source.toList = .ok result := by decide +kernel
  exact ⟨htokens, tokens_segments htokens⟩

end DerivedTelemetry.Lexer
