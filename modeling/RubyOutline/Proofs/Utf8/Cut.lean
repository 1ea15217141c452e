import RubyOutline.Proofs.Utf8.Spelling

/-!
The cut of bytes into pieces. The spelling of a character is cut off as one piece, whatever comes
behind it, and no other piece is read as that character. A byte that continues nothing always
begins a piece, so a lenient reading can be taken apart in front of it.
-/

namespace RubyOutline.Utf8

/-! ### Runs -/

section Runs

variable {ranges : List ByteRange} {tail : List UInt8}

@[simp] theorem run_nil_left (bytes : List UInt8) : run [] bytes = [] := by
  cases bytes <;> rfl

@[simp] theorem run_nil_right (ranges : List ByteRange) : run ranges [] = [] := by
  cases ranges <;> rfl

theorem run_isPrefix (ranges : List ByteRange) (bytes : List UInt8) :
    run ranges bytes <+: bytes := by
  fun_induction run ranges bytes with
  | case1 r rs b bs h ih => exact List.cons_prefix_cons.2 ⟨rfl, ih⟩
  | case2 | case3 => exact List.nil_prefix

theorem run_run (ranges : List ByteRange) (bytes : List UInt8) :
    run ranges (run ranges bytes) = run ranges bytes := by
  fun_induction run ranges bytes with
  | case1 r rs b bs h ih => rw [run, if_pos h, ih]
  | case2 | case3 => exact run_nil_right _

theorem run_append_of_follows (h : Follows ranges tail) (rest : List UInt8) :
    run ranges (tail ++ rest) = tail := by
  induction h with
  | nil => rfl
  | cons hb _ ih => rw [List.cons_append, run, if_pos hb, ih]

theorem follows_run {bytes : List UInt8} (h : (run ranges bytes).length = ranges.length) :
    Follows ranges (run ranges bytes) := by
  fun_induction run ranges bytes with
  | case1 r rs b bs hb ih => exact .cons hb (ih (Nat.succ.inj h))
  | case2 => cases h
  | case3 ranges =>
    obtain rfl := List.length_eq_zero_iff.1 h.symm
    exact .nil

/-- A beginning of bytes that go through the ranges goes through them as far as it reaches. -/
theorem run_of_isPrefix {part : List UInt8} (h : Follows ranges tail) (hpart : part <+: tail) :
    run ranges part = part := by
  induction h generalizing part with
  | nil => rw [List.prefix_nil.1 hpart, run_nil_right]
  | cons hb _ ih =>
    cases part with
    | nil => exact run_nil_right _
    | cons p part =>
      obtain ⟨rfl, hbehind⟩ := List.cons_prefix_cons.1 hpart
      rw [run, if_pos hb, ih hbehind]

/-- A run does not go on into a byte that continues nothing. -/
theorem run_append_of_head?
    (hranges : ∀ r ∈ ranges, ∀ b, r.has b = true → continuation.has b = true)
    {rest : List UInt8} (hrest : ∀ b ∈ rest.head?, continuation.has b = false)
    (bytes : List UInt8) : run ranges (bytes ++ rest) = run ranges bytes := by
  induction ranges generalizing bytes with
  | nil => rw [run_nil_left, run_nil_left]
  | cons r rs ih =>
    cases bytes with
    | nil =>
      cases rest with
      | nil => rfl
      | cons b rest =>
        have hb : r.has b = false := by
          by_contra hb
          have := hranges r List.mem_cons_self b (Bool.not_eq_false _ ▸ hb)
          simp [hrest b rfl] at this
        simp [run, hb]
    | cons b bytes =>
      simp only [List.cons_append, run]
      rw [ih fun r' hr' => hranges r' (List.mem_cons_of_mem _ hr')]

end Runs

/-! ### The first piece -/

/-- The piece that a character is spelled in. -/
def Piece.whole (c : Char) : Piece := ⟨String.utf8EncodeChar c, .ok c⟩

theorem bytes_firstPiece (lead : UInt8) (rest : List UInt8) :
    (firstPiece lead rest).bytes = lead :: run ((tailRanges lead).getD []) rest := by
  unfold firstPiece
  cases tailRanges lead with
  | none => simp
  | some ranges => dsimp only; split_ifs <;> rfl

theorem firstPiece_utf8EncodeChar {c : Char} {lead : UInt8} {tail : List UInt8}
    (h : String.utf8EncodeChar c = lead :: tail) (rest : List UInt8) :
    firstPiece lead (tail ++ rest) = .whole c := by
  obtain ⟨lead', tail', ranges, hspelled, hranges, htail, hc⟩ := exists_utf8EncodeChar_eq c
  obtain ⟨rfl, rfl⟩ := List.cons.inj (h.symm.trans hspelled)
  simp only [firstPiece, hranges, run_append_of_follows htail, List.Forall₂.length_eq htail,
    if_true, Piece.whole, h, hc]

/-- A piece that is read as a character is its spelling. -/
theorem firstPiece_eq_whole {lead : UInt8} {rest : List UInt8} {c : Char}
    (h : (firstPiece lead rest).reading = .ok c) : firstPiece lead rest = .whole c := by
  unfold firstPiece at h ⊢
  split at h
  · cases h
  · next ranges hranges =>
    dsimp only at h ⊢
    split_ifs at h ⊢ with hlength
    cases h
    rw [Piece.whole, utf8EncodeChar_ofNat hranges (follows_run hlength)]

/-- What comes behind a piece can change why it is broken, but not how it is read, as long as
it begins with no continuation byte. -/
theorem firstPiece_append {rest : List UInt8}
    (hrest : ∀ b ∈ rest.head?, continuation.has b = false) (lead : UInt8) (bytes : List UInt8) :
    (firstPiece lead (bytes ++ rest)).bytes = (firstPiece lead bytes).bytes ∧
      (firstPiece lead (bytes ++ rest)).character = (firstPiece lead bytes).character := by
  unfold firstPiece
  cases hranges : tailRanges lead with
  | none => exact ⟨rfl, rfl⟩
  | some ranges =>
    have hrun := run_append_of_head?
      (fun r hr b => continuation_has_of_mem_tailRanges hranges hr) hrest bytes
    simp only [hrun]
    split_ifs <;> exact ⟨rfl, rfl⟩

/-! ### All pieces -/

@[simp] theorem pieces_nil : pieces [] = [] := by rw [pieces]

theorem bytes_firstPiece_append_drop (lead : UInt8) (rest : List UInt8) :
    (firstPiece lead rest).bytes ++ rest.drop ((firstPiece lead rest).bytes.length - 1) =
      lead :: rest := by
  have hrun := List.prefix_iff_eq_append.1 (run_isPrefix ((tailRanges lead).getD []) rest)
  rw [bytes_firstPiece, List.length_cons, Nat.add_sub_cancel, List.cons_append, hrun]

theorem pieces_utf8EncodeChar_append (c : Char) (rest : List UInt8) :
    pieces (String.utf8EncodeChar c ++ rest) = .whole c :: pieces rest := by
  obtain ⟨lead, tail, -, hspelled, -⟩ := exists_utf8EncodeChar_eq c
  rw [hspelled, List.cons_append, pieces, firstPiece_utf8EncodeChar hspelled]
  simp [Piece.whole, hspelled]

theorem pieces_encode_append (s : String) (rest : List UInt8) :
    pieces (encode s ++ rest) = s.toList.map .whole ++ pieces rest := by
  rw [encode_eq]
  induction s.toList with
  | nil => rfl
  | cons c cs ih =>
    rw [List.flatMap_cons, List.append_assoc, pieces_utf8EncodeChar_append, ih]
    rfl

/-- Bytes begin with the spelling of a text, and then they end or a broken piece follows. -/
theorem exists_eq_encode_append (bytes : List UInt8) :
    ∃ s rest, bytes = encode s ++ rest ∧
      (rest = [] ∨ ∃ lead tail fault, rest = lead :: tail ∧
        (firstPiece lead tail).reading = .error fault) := by
  fun_induction pieces bytes with
  | case1 => exact ⟨"", [], rfl, .inl rfl⟩
  | case2 lead rest piece ih =>
    cases hreading : piece.reading with
    | error fault => exact ⟨"", lead :: rest, rfl, .inr ⟨lead, rest, fault, rfl, hreading⟩⟩
    | ok c =>
      obtain ⟨s, behind, hbehind, hend⟩ := ih
      have hbytes := bytes_firstPiece_append_drop lead rest
      refine ⟨String.singleton c ++ s, behind, ?_, hend⟩
      rw [← hbytes, hbehind, firstPiece_eq_whole hreading, Piece.whole, encode_append,
        encode_singleton, List.append_assoc]

/-! ### The lenient reading -/

/-- A number of replacement characters. -/
def replacements (n : Nat) : String := String.ofList (List.replicate n '\uFFFD')

@[simp] theorem decodeLossy_nil : decodeLossy [] = "" := by simp [decodeLossy]

theorem decodeLossy_cons (lead : UInt8) (rest : List UInt8) :
    decodeLossy (lead :: rest) = String.singleton (firstPiece lead rest).character ++
      decodeLossy (rest.drop ((firstPiece lead rest).bytes.length - 1)) := by
  rw [decodeLossy, pieces, List.map_cons, String.ofList_cons, ← decodeLossy]

theorem decodeLossy_encode_append (s : String) (rest : List UInt8) :
    decodeLossy (encode s ++ rest) = s ++ decodeLossy rest := by
  have hread : Piece.character ∘ Piece.whole = id := rfl
  rw [decodeLossy, pieces_encode_append, List.map_append, List.map_map, hread, List.map_id,
    String.ofList_append, String.ofList_toList, ← decodeLossy]

theorem decodeLossy_encode (s : String) : decodeLossy (encode s) = s := by
  have h := decodeLossy_encode_append s []
  rwa [List.append_nil, decodeLossy_nil, String.append_empty] at h

/-- In front of a byte that continues nothing, a lenient reading can be taken apart. -/
theorem decodeLossy_append {rest : List UInt8}
    (hrest : ∀ b ∈ rest.head?, continuation.has b = false) (bytes : List UInt8) :
    decodeLossy (bytes ++ rest) = decodeLossy bytes ++ decodeLossy rest := by
  fun_induction pieces bytes with
  | case1 => simp
  | case2 lead bytes piece ih =>
    obtain ⟨hbytes, hcharacter⟩ := firstPiece_append hrest lead bytes
    have hlength : (firstPiece lead bytes).bytes.length - 1 ≤ bytes.length := by
      rw [bytes_firstPiece, List.length_cons, Nat.add_sub_cancel]
      exact run_length_le _ _
    rw [List.cons_append, decodeLossy_cons, decodeLossy_cons, hbytes, hcharacter,
      List.drop_append_of_le_length hlength, ih, String.append_assoc]

theorem replacements_succ (n : Nat) :
    replacements (n + 1) = String.singleton '\uFFFD' ++ replacements n := by
  rw [replacements, List.replicate_succ, String.ofList_cons, ← replacements]

/-- Each continuation byte that continues nothing is replaced on its own. -/
theorem decodeLossy_continuations_append {bytes : List UInt8}
    (h : ∀ b ∈ bytes, continuation.has b = true) (rest : List UInt8) :
    decodeLossy (bytes ++ rest) = replacements bytes.length ++ decodeLossy rest := by
  induction bytes with
  | nil => simp [replacements]
  | cons b bytes ih =>
    have hb := continuation_has_iff.1 (h b List.mem_cons_self)
    have hnone : tailRanges b = none := by rw [tailRanges_eq, if_neg (by omega), if_pos (by omega)]
    have hpiece : firstPiece b (bytes ++ rest) = ⟨[b], .error .invalidStart⟩ := by
      rw [firstPiece, hnone]
    rw [List.cons_append, decodeLossy_cons, hpiece, List.length_singleton, Nat.sub_self,
      List.drop_zero, ih fun b' hb' => h b' (List.mem_cons_of_mem _ hb'), List.length_cons,
      replacements_succ, String.append_assoc]
    rfl

/-- The beginning of a character that is not carried through is replaced as a whole. -/
theorem decodeLossy_of_isPrefix {part : List UInt8} {c : Char}
    (hpart : part <+: String.utf8EncodeChar c) (hne : part ≠ [])
    (hlt : part.length < (String.utf8EncodeChar c).length) :
    decodeLossy part = replacements 1 := by
  obtain ⟨lead, tail, ranges, hspelled, hranges, htail, -⟩ := exists_utf8EncodeChar_eq c
  rw [hspelled] at hpart hlt
  obtain _ | ⟨p, part⟩ := part
  · exact absurd rfl hne
  obtain ⟨rfl, hbehind⟩ := List.cons_prefix_cons.1 hpart
  have hshort : part.length ≠ ranges.length := by
    rw [List.Forall₂.length_eq htail]
    exact Nat.ne_of_lt (Nat.lt_of_succ_lt_succ hlt)
  have hpiece : firstPiece p part = ⟨p :: part, .error .unexpectedEnd⟩ := by
    simp only [firstPiece, hranges, run_of_isPrefix htail hbehind, if_neg hshort, if_true]
  rw [decodeLossy_cons, hpiece]
  simp [Piece.character, replacements]

end RubyOutline.Utf8
