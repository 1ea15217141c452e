import RubyOutline.Text.Utf8
import Mathlib.Data.List.Forall2

/-!
How characters are spelled in bytes. The ranges that a first byte leaves to the bytes behind it
admit exactly the spellings of characters: what is encoded goes through the ranges, and what
goes through them to their end is the encoding of the character that is read off it.
-/

namespace RubyOutline.Utf8

/-- The bytes of a text. -/
def encode (s : String) : List UInt8 := s.toUTF8.data.toList

theorem encode_eq (s : String) : encode s = s.toList.flatMap String.utf8EncodeChar := by
  rw [encode, String.toUTF8, ← String.utf8Encode_toList, List.utf8Encode,
    List.toList_data_toByteArray]

@[simp] theorem encode_append (s t : String) : encode (s ++ t) = encode s ++ encode t := by
  rw [encode_eq, encode_eq, encode_eq, String.toList_append, List.flatMap_append]

@[simp] theorem encode_singleton (c : Char) :
    encode (String.singleton c) = String.utf8EncodeChar c := by
  rw [encode_eq, String.toList_singleton, List.flatMap_singleton]

/-- Bytes that fall in some ranges, one in each. -/
def Follows (ranges : List ByteRange) (tail : List UInt8) : Prop :=
  List.Forall₂ (fun r b => r.has b = true) ranges tail

/-! ### The ranges -/

/-- The range that a first byte leaves to the second one. -/
def secondRange (lead : UInt8) : ByteRange :=
  if lead = 0xE0 then ⟨0xA0, 0xBF⟩
  else if lead = 0xED then ⟨0x80, 0x9F⟩
  else if lead = 0xF0 then ⟨0x90, 0xBF⟩
  else if lead = 0xF4 then ⟨0x80, 0x8F⟩
  else continuation

/-- A first byte tells by its size how many bytes follow, and narrows only the second one. -/
theorem tailRanges_eq (lead : UInt8) :
    tailRanges lead =
      if lead.toNat < 0x80 then some []
      else if lead.toNat < 0xC2 then none
      else if lead.toNat < 0xE0 then some [continuation]
      else if lead.toNat < 0xF0 then some [secondRange lead, continuation]
      else if lead.toNat < 0xF5 then some [secondRange lead, continuation, continuation]
      else none := by
  simp only [tailRanges, secondRange, UInt8.lt_iff_toNat_lt, ← UInt8.toNat_inj, UInt8.reduceToNat]
  grind

theorem ByteRange.has_iff {r : ByteRange} {b : UInt8} :
    r.has b = true ↔ r.low.toNat ≤ b.toNat ∧ b.toNat ≤ r.high.toNat := by
  simp [has, UInt8.le_iff_toNat_le]

theorem continuation_has_iff {b : UInt8} :
    continuation.has b = true ↔ 0x80 ≤ b.toNat ∧ b.toNat ≤ 0xBF :=
  ByteRange.has_iff

theorem secondRange_has_iff {lead b : UInt8} :
    (secondRange lead).has b = true ↔
      0x80 ≤ b.toNat ∧ b.toNat ≤ 0xBF ∧ (lead.toNat = 0xE0 → 0xA0 ≤ b.toNat) ∧
        (lead.toNat = 0xED → b.toNat ≤ 0x9F) ∧ (lead.toNat = 0xF0 → 0x90 ≤ b.toNat) ∧
        (lead.toNat = 0xF4 → b.toNat ≤ 0x8F) := by
  simp only [secondRange, ← UInt8.toNat_inj, UInt8.reduceToNat]
  split_ifs <;> simp [ByteRange.has_iff, continuation, *] <;> omega

theorem mem_tailRanges {lead : UInt8} {ranges : List ByteRange} {r : ByteRange}
    (h : tailRanges lead = some ranges) (hr : r ∈ ranges) :
    r = secondRange lead ∨ r = continuation := by
  rw [tailRanges_eq] at h
  split_ifs at h <;> cases h <;> simp_all

/-- Whatever follows a first byte is a continuation byte. -/
theorem continuation_has_of_mem_tailRanges {lead b : UInt8} {ranges : List ByteRange}
    {r : ByteRange} (h : tailRanges lead = some ranges) (hr : r ∈ ranges) (hb : r.has b = true) :
    continuation.has b = true := by
  obtain rfl | rfl := mem_tailRanges h hr
  · rw [secondRange_has_iff] at hb
    exact continuation_has_iff.2 ⟨hb.1, hb.2.1⟩
  · exact hb

theorem continuation_has_of_follows {lead b : UInt8} {tail : List UInt8}
    {ranges : List ByteRange} (h : tailRanges lead = some ranges) (htail : Follows ranges tail)
    (hb : b ∈ tail) : continuation.has b = true := by
  obtain ⟨i, hi, rfl⟩ := List.getElem_of_mem hb
  obtain ⟨hlength, hhas⟩ := List.forall₂_iff_get.1 htail
  exact continuation_has_of_mem_tailRanges h (List.get_mem _ _) (hhas i (by omega) hi)

theorem exists_has_of_mem_tailRanges {lead : UInt8} {ranges : List ByteRange} {r : ByteRange}
    (h : tailRanges lead = some ranges) (hr : r ∈ ranges) : ∃ b, r.has b = true := by
  obtain rfl | rfl := mem_tailRanges h hr
  · by_cases hlead : lead.toNat = 0xE0 ∨ lead.toNat = 0xF0
    · exact ⟨0xA0, secondRange_has_iff.2 (by simp; omega)⟩
    · exact ⟨0x80, secondRange_has_iff.2 (by simp; omega)⟩
  · exact ⟨0x80, rfl⟩

/-! ### The spelling of a scalar value -/

/-- The bytes that a scalar value is written in, from one byte to four. -/
inductive Spells (v : Nat) : UInt8 → List UInt8 → Prop where
  | one {lead : UInt8} (high : v < 0x80) (h : lead.toNat = v) : Spells v lead []
  | two {lead b : UInt8} (low : 0x80 ≤ v) (high : v < 0x800)
      (h : lead.toNat = v / 64 + 0xC0) (hb : b.toNat = v % 64 + 0x80) : Spells v lead [b]
  | three {lead b c : UInt8} (low : 0x800 ≤ v) (high : v < 0x10000)
      (h : lead.toNat = v / 4096 + 0xE0) (hb : b.toNat = v / 64 % 64 + 0x80)
      (hc : c.toNat = v % 64 + 0x80) : Spells v lead [b, c]
  | four {lead b c d : UInt8} (low : 0x10000 ≤ v) (high : v < 0x110000)
      (h : lead.toNat = v / 262144 + 0xF0) (hb : b.toNat = v / 4096 % 64 + 0x80)
      (hc : c.toNat = v / 64 % 64 + 0x80) (hd : d.toNat = v % 64 + 0x80) :
      Spells v lead [b, c, d]

theorem exists_spells {v : Nat} (hv : v < 0x110000) : ∃ lead tail, Spells v lead tail := by
  have byte {n : Nat} (hn : n < 256) : (UInt8.ofNat n).toNat = n := UInt8.toNat_ofNat_of_lt hn
  rcases Nat.lt_or_ge v 0x80 with h1 | h1
  · exact ⟨_, _, .one h1 (byte (by omega))⟩
  rcases Nat.lt_or_ge v 0x800 with h2 | h2
  · exact ⟨_, _, .two h1 h2 (byte (by omega)) (byte (by omega))⟩
  rcases Nat.lt_or_ge v 0x10000 with h3 | h3
  · exact ⟨_, _, .three h2 h3 (byte (by omega)) (byte (by omega)) (byte (by omega))⟩
  · exact ⟨_, _, .four h3 hv (byte (by omega)) (byte (by omega)) (byte (by omega))
      (byte (by omega))⟩

theorem Spells.utf8EncodeChar {c : Char} {lead : UInt8} {tail : List UInt8}
    (h : Spells c.toNat lead tail) : String.utf8EncodeChar c = lead :: tail := by
  have byte {n : Nat} {b : UInt8} (hb : b.toNat = n) : UInt8.ofNat n = b := by
    rw [← hb, UInt8.ofNat_toNat]
  have hv : c.val.toNat = c.toNat := rfl
  simp only [String.utf8EncodeChar, hv]
  cases h with
  | one high h => rw [if_pos (by omega), byte h]
  | two low high h hb =>
    rw [if_neg (by omega), if_pos (by omega), byte (b := lead) (by omega), byte hb]
  | three low high h hb hc =>
    rw [if_neg (by omega), if_neg (by omega), if_pos (by omega), byte (b := lead) (by omega),
      byte hb, byte hc]
  | four low high h hb hc hd =>
    rw [if_neg (by omega), if_neg (by omega), if_neg (by omega), byte (b := lead) (by omega),
      byte hb, byte hc, byte hd]

theorem Spells.scalarValue_eq {v : Nat} {lead : UInt8} {tail : List UInt8}
    (h : Spells v lead tail) : scalarValue lead tail = v := by
  cases h with
  | one high h => exact h
  | two | three | four =>
    simp only [scalarValue, leadBits, List.length, List.foldl]
    omega

/-- The surrogates are spelled like other values, but the ranges keep them out. -/
theorem Spells.follows {v : Nat} {lead : UInt8} {tail : List UInt8} (h : Spells v lead tail)
    (hv : v < 0xD800 ∨ 0xDFFF < v) :
    ∃ ranges, tailRanges lead = some ranges ∧ Follows ranges tail := by
  cases h with
  | one high h =>
    refine ⟨[], ?_, .nil⟩
    rw [tailRanges_eq, if_pos (by omega)]
  | two low high h hb =>
    refine ⟨[continuation], ?_, .cons (continuation_has_iff.2 (by omega)) .nil⟩
    rw [tailRanges_eq, if_neg (by omega), if_neg (by omega), if_pos (by omega)]
  | three low high h hb hc =>
    refine ⟨[secondRange lead, continuation], ?_,
      .cons (secondRange_has_iff.2 (by omega)) (.cons (continuation_has_iff.2 (by omega)) .nil)⟩
    rw [tailRanges_eq, if_neg (by omega), if_neg (by omega), if_neg (by omega), if_pos (by omega)]
  | four low high h hb hc hd =>
    refine ⟨[secondRange lead, continuation, continuation], ?_,
      .cons (secondRange_has_iff.2 (by omega)) (.cons (continuation_has_iff.2 (by omega))
        (.cons (continuation_has_iff.2 (by omega)) .nil))⟩
    rw [tailRanges_eq, if_neg (by omega), if_neg (by omega), if_neg (by omega),
      if_neg (by omega), if_pos (by omega)]

theorem spells_of_follows {lead : UInt8} {tail : List UInt8} {ranges : List ByteRange}
    (hranges : tailRanges lead = some ranges) (htail : Follows ranges tail) :
    Spells (scalarValue lead tail) lead tail ∧ (scalarValue lead tail).isValidChar := by
  rw [tailRanges_eq] at hranges
  split_ifs at hranges with h1 h2 h3 h4 h5 <;> cases hranges
  · obtain _ | _ := htail
    exact ⟨.one h1 rfl, .inl (Nat.lt_trans h1 (by decide))⟩
  · obtain _ | @⟨_, b, _, _, hb, _ | _⟩ := htail
    rw [continuation_has_iff] at hb
    have hv : scalarValue lead [b] = lead.toNat % 32 * 64 + b.toNat % 64 := rfl
    rw [hv]
    exact ⟨.two (by omega) (by omega) (by omega) (by omega), .inl (by omega)⟩
  · obtain _ | @⟨_, b, _, _, hb, _ | @⟨_, c, _, _, hc, _ | _⟩⟩ := htail
    rw [secondRange_has_iff] at hb
    rw [continuation_has_iff] at hc
    have hv : scalarValue lead [b, c] =
      (lead.toNat % 16 * 64 + b.toNat % 64) * 64 + c.toNat % 64 := rfl
    rw [hv]
    refine ⟨.three (by omega) (by omega) (by omega) (by omega) (by omega), ?_⟩
    unfold Nat.isValidChar
    omega
  · obtain _ | @⟨_, b, _, _, hb, _ | @⟨_, c, _, _, hc, _ | @⟨_, d, _, _, hd, _ | _⟩⟩⟩ := htail
    rw [secondRange_has_iff] at hb
    rw [continuation_has_iff] at hc hd
    have hv : scalarValue lead [b, c, d] =
      ((lead.toNat % 8 * 64 + b.toNat % 64) * 64 + c.toNat % 64) * 64 + d.toNat % 64 := rfl
    rw [hv]
    exact ⟨.four (by omega) (by omega) (by omega) (by omega) (by omega) (by omega),
      .inr (by omega)⟩

/-! ### The spelling of a character -/

/-- A character is spelled in bytes that go through the ranges of the first one, and it is the
character that is read off them. -/
theorem exists_utf8EncodeChar_eq (c : Char) :
    ∃ lead tail ranges, String.utf8EncodeChar c = lead :: tail ∧
      tailRanges lead = some ranges ∧ Follows ranges tail ∧
      Char.ofNat (scalarValue lead tail) = c := by
  have hvalid : c.toNat < 0xD800 ∨ 0xDFFF < c.toNat ∧ c.toNat < 0x110000 := c.valid
  obtain ⟨lead, tail, hspells⟩ := exists_spells (v := c.toNat) (by omega)
  obtain ⟨ranges, hranges, htail⟩ := hspells.follows (by omega)
  refine ⟨lead, tail, ranges, hspells.utf8EncodeChar, hranges, htail, ?_⟩
  rw [hspells.scalarValue_eq, Char.ofNat_toNat]

/-- Bytes that go through the ranges to their end spell the character that is read off them. -/
theorem utf8EncodeChar_ofNat {lead : UInt8} {tail : List UInt8} {ranges : List ByteRange}
    (hranges : tailRanges lead = some ranges) (htail : Follows ranges tail) :
    String.utf8EncodeChar (Char.ofNat (scalarValue lead tail)) = lead :: tail := by
  obtain ⟨hspells, hvalid⟩ := spells_of_follows hranges htail
  have hvalue : (Char.ofNat (scalarValue lead tail)).toNat = scalarValue lead tail := by
    rw [Char.ofNat, dif_pos hvalid]
    rfl
  exact Spells.utf8EncodeChar (hvalue.symm ▸ hspells)

end RubyOutline.Utf8
