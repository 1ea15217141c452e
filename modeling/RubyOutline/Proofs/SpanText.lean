import RubyOutline.Proofs.Utf8.WellFormed
import RubyOutline.Source
import Mathlib.Data.Nat.Find
import Mathlib.Order.Basic

/-!
The text of a span in an encoded source. Spans count bytes, texts count characters: a span between
two character boundaries is read as the characters between them, and what is left of a
character at either end of a span is replaced.
-/

namespace RubyOutline

open Utf8

/-! ### Bytes at boundaries -/

theorem Utf8.continuation_has_of_not_isUTF8FirstByte {s : String} {b : UInt8} (hb : b ∈ encode s)
    (hfirst : ¬ b.IsUTF8FirstByte) : continuation.has b = true := by
  rw [encode_eq, List.mem_flatMap] at hb
  obtain ⟨c, -, hb⟩ := hb
  obtain ⟨lead, tail, ranges, hspelled, hranges, htail, -⟩ := exists_utf8EncodeChar_eq c
  have hlead : lead.IsUTF8FirstByte := by
    have h := UInt8.isUTF8FirstByte_getElem_zero_utf8EncodeChar (c := c)
    simpa only [hspelled, List.getElem_cons_zero] using h
  rw [hspelled] at hb
  obtain rfl | hb := List.mem_cons.1 hb
  · exact absurd hlead hfirst
  · exact continuation_has_of_follows hranges htail hb

namespace Span

variable {code : String} {start stop : Nat}

theorem bytes_mk (source : ByteArray) (start stop : Nat) :
    bytes ⟨start, stop⟩ source = (source.data.toList.drop start).take (stop - start) :=
  bytes_eq _ source

theorem bytes_append (source : ByteArray) {a b c : Nat} (hab : a ≤ b) (hbc : b ≤ c) :
    bytes ⟨a, c⟩ source = bytes ⟨a, b⟩ source ++ bytes ⟨b, c⟩ source := by
  have hsplit : c - a = (b - a) + (c - b) := by omega
  have hdrop : a + (b - a) = b := by omega
  rw [bytes_mk, bytes_mk, bytes_mk, hsplit, List.take_add, List.drop_drop, hdrop]

theorem bytes_eq_nil (source : ByteArray) {a b : Nat} (h : b ≤ a) : bytes ⟨a, b⟩ source = [] := by
  rw [bytes_mk, Nat.sub_eq_zero_of_le h, List.take_zero]

theorem length_bytes (h : stop ≤ code.utf8ByteSize) :
    (bytes ⟨start, stop⟩ code.toUTF8).length = stop - start := by
  have hsize : code.toUTF8.data.toList.length = code.utf8ByteSize := rfl
  rw [bytes_mk, List.length_take, List.length_drop, hsize]
  omega

/-- The bytes of a span that no boundary lies in. -/
theorem continuation_has_of_mem_bytes
    (h : ∀ p : code.Pos, start ≤ p.offset.byteIdx → stop ≤ p.offset.byteIdx)
    {b : UInt8} (hb : b ∈ bytes ⟨start, stop⟩ code.toUTF8) : continuation.has b = true := by
  rw [bytes_mk] at hb
  obtain ⟨i, hi, rfl⟩ := List.getElem_of_mem hb
  rw [List.length_take, List.length_drop] at hi
  refine continuation_has_of_not_isUTF8FirstByte (s := code)
    (List.mem_of_mem_drop (List.mem_of_mem_take (List.getElem_mem _))) fun hfirst => ?_
  rw [List.getElem_take, List.getElem_drop] at hfirst
  have hlt : start + i < code.utf8ByteSize := by
    have hsize : code.toUTF8.data.toList.length = code.utf8ByteSize := rfl
    omega
  have hvalid : String.Pos.Raw.IsValid code ⟨start + i⟩ :=
    String.Pos.Raw.isValid_iff_isUTF8FirstByte.2 (.inr ⟨hlt, hfirst⟩)
  have := h ⟨_, hvalid⟩ (Nat.le_add_right _ _)
  dsimp only at this
  omega

theorem bytes_between (s e : code.Pos) :
    bytes ⟨s.offset.byteIdx, e.offset.byteIdx⟩ code.toUTF8 = encode (String.extract s e) := by
  rw [bytes_mk, encode, String.toUTF8, String.toUTF8, String.toByteArray_extract,
    ByteArray.data_extract, Array.toList_extract, List.extract_eq_take_drop]

theorem exists_first_boundary (h : start ≤ code.utf8ByteSize) :
    ∃ s : code.Pos, ∀ p : code.Pos, start ≤ p.offset.byteIdx ↔ s ≤ p := by
  have hend : ∃ n, start ≤ n ∧ String.Pos.Raw.IsValid code ⟨n⟩ :=
    ⟨_, h, String.Pos.Raw.isValid_rawEndPos⟩
  obtain ⟨hle, hvalid⟩ := Nat.find_spec hend
  refine ⟨⟨_, hvalid⟩, fun p => ⟨fun hp => ?_, fun hp => ?_⟩⟩
  · exact Nat.find_min' hend ⟨hp, p.isValid⟩
  · exact hle.trans hp

theorem exists_last_boundary (code : String) (stop : Nat) :
    ∃ e : code.Pos, ∀ p : code.Pos, p.offset.byteIdx ≤ stop ↔ p ≤ e := by
  let valid (n : Nat) : Prop := String.Pos.Raw.IsValid code ⟨n⟩
  have hvalid : valid (Nat.findGreatest valid stop) :=
    Nat.findGreatest_spec (P := valid) (Nat.zero_le stop) String.Pos.Raw.isValid_zero
  refine ⟨⟨_, hvalid⟩, fun p => ⟨fun hp => ?_, fun hp => ?_⟩⟩
  · exact Nat.le_findGreatest hp p.isValid
  · exact le_trans hp (Nat.findGreatest_le stop)

/-- The bytes between the last boundary in front of an offset and the offset are the beginning of
a character. -/
theorem decodeLossy_bytes_of_last_boundary {e : code.Pos}
    (he : ∀ p : code.Pos, p.offset.byteIdx ≤ stop ↔ p ≤ e) (hstop : stop ≤ code.utf8ByteSize) :
    decodeLossy (bytes ⟨e.offset.byteIdx, stop⟩ code.toUTF8) =
      if e.offset.byteIdx < stop then replacements 1 else "" := by
  split_ifs with hlt
  · have hend : e ≠ code.endPos := by
      rintro rfl
      exact absurd hstop (Nat.not_le.2 hlt)
    have hnext : stop < (e.next hend).offset.byteIdx := by
      by_contra hle
      exact absurd ((he _).1 (Nat.le_of_not_lt hle)) (Nat.not_le.2 String.Pos.lt_next)
    have hchar : bytes ⟨e.offset.byteIdx, (e.next hend).offset.byteIdx⟩ code.toUTF8 =
        String.utf8EncodeChar (e.get hend) := by
      have hget := String.Pos.utf8Encode_get_eq_extract e hend
      rw [← String.Pos.byteIdx_offset_next, ← String.toByteArray_extract] at hget
      rw [bytes_between, encode, String.toUTF8, ← hget, List.utf8Encode_singleton,
        List.toList_data_toByteArray]
    refine decodeLossy_of_isPrefix (c := e.get hend) ?_ ?_ ?_
    · rw [← hchar, bytes_append _ hlt.le hnext.le]
      exact List.prefix_append _ _
    · intro hnil
      have hlength : _ = stop - e.offset.byteIdx := length_bytes hstop
      rw [hnil, List.length_nil] at hlength
      omega
    · rw [← hchar, length_bytes hstop, length_bytes (e.next hend).isValid.le_utf8ByteSize]
      omega
  · rw [bytes_eq_nil _ (Nat.le_of_not_lt hlt), decodeLossy_nil]

theorem text_of_boundary_le {s e : code.Pos}
    (hs : ∀ p : code.Pos, start ≤ p.offset.byteIdx ↔ s ≤ p)
    (he : ∀ p : code.Pos, p.offset.byteIdx ≤ stop ↔ p ≤ e)
    (hstop : stop ≤ code.utf8ByteSize) (hse : s ≤ e) :
    Span.text ⟨start, stop⟩ code.toUTF8 =
      replacements (s.offset.byteIdx - start) ++ String.extract s e ++
        if e.offset.byteIdx < stop then replacements 1 else "" := by
  have hstart : start ≤ s.offset.byteIdx := (hs s).2 (String.Pos.le_refl s)
  have hmiddle : s.offset.byteIdx ≤ e.offset.byteIdx := hse
  have hend : e.offset.byteIdx ≤ stop := (he e).2 (String.Pos.le_refl e)
  have hbroken : ∀ b ∈ bytes ⟨start, s.offset.byteIdx⟩ code.toUTF8, continuation.has b = true :=
    fun b => continuation_has_of_mem_bytes fun p hp => (hs p).1 hp
  rw [text, bytes_append _ hstart (hmiddle.trans hend), bytes_append _ hmiddle hend,
    decodeLossy_continuations_append hbroken, length_bytes s.isValid.le_utf8ByteSize,
    bytes_between, decodeLossy_encode_append, decodeLossy_bytes_of_last_boundary he hstop,
    String.append_assoc]

theorem text_of_lt_boundary {s : code.Pos}
    (hs : ∀ p : code.Pos, start ≤ p.offset.byteIdx ↔ s ≤ p)
    (hstop : stop ≤ code.utf8ByteSize) (hlt : stop < s.offset.byteIdx) :
    Span.text ⟨start, stop⟩ code.toUTF8 = replacements (stop - start) := by
  have hbroken : ∀ b ∈ bytes ⟨start, stop⟩ code.toUTF8, continuation.has b = true :=
    fun b => continuation_has_of_mem_bytes fun p hp => hlt.le.trans ((hs p).1 hp)
  have hread := decodeLossy_continuations_append hbroken []
  rw [List.append_nil, decodeLossy_nil, String.append_empty, length_bytes hstop] at hread
  exact hread

/-- A span of an encoded source is read as the characters between the first boundary in it and
the last one. In front of them each byte of a broken character is replaced on its own, and
the beginning of a character behind them is replaced as a whole. A span without a boundary is all
replaced. -/
theorem text_toUTF8 (code : String) :
    (∀ start stop, start ≤ stop → stop ≤ code.utf8ByteSize →
      ∃ s e : code.Pos,
        (∀ p : code.Pos, start ≤ p.offset.byteIdx ↔ s ≤ p) ∧
        (∀ p : code.Pos, p.offset.byteIdx ≤ stop ↔ p ≤ e) ∧
        Span.text ⟨start, stop⟩ code.toUTF8 =
          if s ≤ e then
            replacements (s.offset.byteIdx - start) ++ String.extract s e ++
              if e.offset.byteIdx < stop then replacements 1 else ""
          else replacements (stop - start)) ∧
      (∀ s e : code.Pos,
        Span.text ⟨s.offset.byteIdx, e.offset.byteIdx⟩ code.toUTF8 = String.extract s e) ∧
      decodeLossy code.toUTF8.data.toList = code ∧ decode code.toUTF8.data.toList = .ok code := by
  refine ⟨fun start stop hle hstop => ?_, fun s e => ?_, decodeLossy_encode code,
    decode_encode code⟩
  · obtain ⟨s, hs⟩ := exists_first_boundary (hle.trans hstop)
    obtain ⟨e, he⟩ := exists_last_boundary code stop
    refine ⟨s, e, hs, he, ?_⟩
    by_cases hse : s ≤ e
    · rw [if_pos hse]
      exact text_of_boundary_le hs he hstop hse
    · rw [if_neg hse]
      exact text_of_lt_boundary hs hstop (Nat.lt_of_not_le fun h => hse ((he s).1 h))
  · rw [text, bytes_between, decodeLossy_encode]

/-- A span that begins and ends inside a character. -/
theorem text_toUTF8_halves :
    (1 ≤ 4 ∧ 4 ≤ "é😀".utf8ByteSize) ∧
      ∃ s e : String.Pos "é😀", s.offset.byteIdx = 2 ∧ e.offset.byteIdx = 2 ∧
        Span.text ⟨1, 4⟩ "é😀".toUTF8 = replacements 1 ++ String.extract s e ++ replacements 1 := by
  have hboundary : ∀ n ≤ 4, String.Pos.Raw.IsValid "é😀" ⟨n⟩ → n = 0 ∨ n = 2 := by
    decide +kernel
  obtain ⟨s, e, hs, he, htext⟩ := (text_toUTF8 "é😀").1 1 4 (by decide) (by decide)
  let two : String.Pos "é😀" := ⟨⟨2⟩, by decide +kernel⟩
  have hstart : 1 ≤ s.offset.byteIdx := (hs s).2 (String.Pos.le_refl s)
  have hs_le : s.offset.byteIdx ≤ 2 := (hs two).1 (by decide)
  have hend : e.offset.byteIdx ≤ 4 := (he e).2 (String.Pos.le_refl e)
  have hle_e : 2 ≤ e.offset.byteIdx := (he two).1 (by decide)
  have hs_eq : s.offset.byteIdx = 2 := by
    have := hboundary s.offset.byteIdx (by omega) s.isValid
    omega
  have he_eq : e.offset.byteIdx = 2 := by
    have := hboundary e.offset.byteIdx hend e.isValid
    omega
  have hse : s ≤ e := hs_eq.trans_le he_eq.ge
  rw [if_pos hse, hs_eq, he_eq, if_pos (by decide)] at htext
  exact ⟨by decide, s, e, hs_eq, he_eq, htext⟩

end Span

end RubyOutline
