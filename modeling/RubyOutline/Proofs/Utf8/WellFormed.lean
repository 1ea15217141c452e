import RubyOutline.Proofs.Utf8.Cut

/-!
Well-formed bytes. The strict decoder accepts exactly the encodings of texts. Other bytes it
refuses at the end of their longest beginning that is one, and names there the very bytes that
the lenient decoder replaces: as many as begin a character, or a single one.
-/

namespace RubyOutline.Utf8

/-- Bytes that are the encoding of a text. -/
def IsWellFormed (bytes : List UInt8) : Prop := ∃ s, encode s = bytes

/-- Bytes that the spelling of some character begins with. -/
def Begins (part : List UInt8) : Prop := ∃ c : Char, part <+: String.utf8EncodeChar c

/-- The bytes at the front of others that are taken for one broken character: as many as begin
a character, or a single byte that begins none. -/
structure IsMaximalPart (part bytes : List UInt8) : Prop where
  isPrefix : part <+: bytes
  ne_nil : part ≠ []
  begins : Begins part ∨ part.length = 1
  maximal : ∀ longer, longer <+: bytes → Begins longer → longer.length ≤ part.length

/-- What an error says about bytes that are not well formed. -/
structure Locates (e : DecodeError) (bytes : List UInt8) : Prop where
  decode_before : decode (bytes.take e.position) = .ok (decodeLossy (bytes.take e.position))
  wellFormed_before : IsWellFormed (bytes.take e.position)
  longest : ∀ n, IsWellFormed (bytes.take n) → n ≤ e.position
  maximalPart : IsMaximalPart e.bytes (bytes.drop e.position)
  decodeLossy_eq : decodeLossy bytes = decodeLossy (bytes.take e.position) ++ "\uFFFD" ++
    decodeLossy (bytes.drop (e.position + e.bytes.length))

/-! ### Beginnings of characters -/

theorem exists_follows_append {ranges : List ByteRange}
    (hranges : ∀ r ∈ ranges, ∃ b, r.has b = true) {tail : List UInt8}
    (h : run ranges tail = tail) : ∃ more, Follows ranges (tail ++ more) := by
  induction ranges generalizing tail with
  | nil =>
    rw [run_nil_left] at h
    exact ⟨[], h ▸ .nil⟩
  | cons r rs ih =>
    have hrs : ∀ r' ∈ rs, ∃ b, r'.has b = true := fun r' hr' =>
      hranges r' (List.mem_cons_of_mem _ hr')
    cases tail with
    | nil =>
      obtain ⟨b, hb⟩ := hranges r List.mem_cons_self
      obtain ⟨more, hmore⟩ := ih hrs (run_nil_right rs)
      exact ⟨b :: more, .cons hb hmore⟩
    | cons b tail =>
      rw [run] at h
      split at h
      · next hb =>
        obtain ⟨more, hmore⟩ := ih hrs (List.cons.inj h).2
        exact ⟨more, .cons hb hmore⟩
      · cases h

theorem begins_cons_iff {lead : UInt8} {tail : List UInt8} :
    Begins (lead :: tail) ↔ ∃ ranges, tailRanges lead = some ranges ∧ run ranges tail = tail := by
  constructor
  · rintro ⟨c, hc⟩
    obtain ⟨lead', tail', ranges, hspelled, hranges, htail, -⟩ := exists_utf8EncodeChar_eq c
    rw [hspelled] at hc
    obtain ⟨rfl, hbehind⟩ := List.cons_prefix_cons.1 hc
    exact ⟨ranges, hranges, run_of_isPrefix htail hbehind⟩
  · rintro ⟨ranges, hranges, hrun⟩
    obtain ⟨more, hmore⟩ :=
      exists_follows_append (fun r hr => exists_has_of_mem_tailRanges hranges hr) hrun
    refine ⟨Char.ofNat (scalarValue lead (tail ++ more)), ?_⟩
    rw [utf8EncodeChar_ofNat hranges hmore]
    exact List.cons_prefix_cons.2 ⟨rfl, List.prefix_append _ _⟩

theorem length_le_length_run {ranges : List ByteRange} {part bytes : List UInt8}
    (hpart : part <+: bytes) (h : run ranges part = part) :
    part.length ≤ (run ranges bytes).length := by
  induction ranges generalizing part bytes with
  | nil =>
    rw [← h, run_nil_left]
    exact Nat.zero_le _
  | cons r rs ih =>
    cases part with
    | nil => exact Nat.zero_le _
    | cons p part =>
      obtain ⟨rest, rfl⟩ := hpart
      rw [run] at h
      split at h
      · next hp =>
        rw [List.cons_append, run, if_pos hp]
        exact Nat.succ_le_succ (ih (List.prefix_append _ _) (List.cons.inj h).2)
      · cases h

/-- Every piece is as long as the beginning of a character can be. -/
theorem isMaximalPart_firstPiece (lead : UInt8) (rest : List UInt8) :
    IsMaximalPart (firstPiece lead rest).bytes (lead :: rest) := by
  rw [bytes_firstPiece]
  refine ⟨List.cons_prefix_cons.2 ⟨rfl, run_isPrefix _ _⟩, List.cons_ne_nil _ _, ?_, ?_⟩
  · cases hranges : tailRanges lead with
    | none => simp
    | some ranges => exact .inl (begins_cons_iff.2 ⟨ranges, hranges, run_run ranges rest⟩)
  · intro longer hlonger hbegins
    cases longer with
    | nil => exact Nat.zero_le _
    | cons b tail =>
      obtain ⟨rfl, htail⟩ := List.cons_prefix_cons.1 hlonger
      obtain ⟨ranges, hranges, hrun⟩ := begins_cons_iff.1 hbegins
      rw [hranges]
      exact Nat.succ_le_succ (length_le_length_run htail hrun)

/-! ### The strict decoder -/

theorem decodePieces_whole_append (cs : List Char) (ps : List Piece) (position : Nat) :
    decodePieces position (cs.map .whole ++ ps) =
      (decodePieces (position + (cs.flatMap String.utf8EncodeChar).length) ps).map (cs ++ ·) := by
  induction cs generalizing position with
  | nil => cases h : decodePieces position ps <;> simp [h, Except.map]
  | cons c cs ih =>
    rw [List.map_cons, List.cons_append, List.flatMap_cons, List.length_append, ← Nat.add_assoc]
    simp only [decodePieces, Piece.whole]
    rw [ih]
    cases decodePieces _ ps <;> rfl

theorem decode_encode (s : String) : decode (encode s) = .ok s := by
  have hpieces := pieces_encode_append s []
  rw [List.append_nil, pieces_nil] at hpieces
  rw [decode, hpieces, decodePieces_whole_append]
  simp [decodePieces, Except.map]

theorem decode_encode_append {lead : UInt8} {rest : List UInt8} {fault : Fault}
    (h : (firstPiece lead rest).reading = .error fault) (s : String) :
    decode (encode s ++ lead :: rest) =
      .error ⟨(encode s).length, (firstPiece lead rest).bytes, fault⟩ := by
  rw [decode, pieces_encode_append, decodePieces_whole_append, ← encode_eq, pieces]
  simp [decodePieces, h, Except.map]

theorem decode_eq_ok_iff {bytes : List UInt8} {s : String} :
    decode bytes = .ok s ↔ encode s = bytes := by
  constructor
  · intro h
    obtain ⟨t, rest, rfl, rfl | ⟨lead, tail, fault, rfl, hfault⟩⟩ := exists_eq_encode_append bytes
    · rw [List.append_nil, decode_encode] at h
      rw [List.append_nil, Except.ok.inj h]
    · rw [decode_encode_append hfault] at h
      cases h
  · rintro rfl
    exact decode_encode s

theorem isWellFormed_iff {bytes : List UInt8} :
    IsWellFormed bytes ↔ encode (decodeLossy bytes) = bytes := by
  constructor
  · rintro ⟨s, rfl⟩
    rw [decodeLossy_encode]
  · exact fun h => ⟨_, h⟩

/-- A text that is encoded in front of a broken piece reaches no further than to that piece. -/
theorem length_encode_le {lead : UInt8} {rest behind : List UInt8} {fault : Fault}
    (h : (firstPiece lead rest).reading = .error fault) {s t : String}
    (heq : encode t ++ behind = encode s ++ lead :: rest) :
    (encode t).length ≤ (encode s).length := by
  have hbytes (u : String) : encode u = (u.toList.map Piece.whole).flatMap Piece.bytes := by
    rw [encode_eq, List.flatMap_map]
    rfl
  have hpieces := congrArg pieces heq
  rw [pieces_encode_append, pieces_encode_append, pieces] at hpieces
  obtain ⟨more, hs, -⟩ | ⟨more, ht, hbroken⟩ := List.append_eq_append_iff.1 hpieces
  · rw [hbytes s, hs, List.flatMap_append, ← hbytes t, List.length_append]
    exact Nat.le_add_right _ _
  · cases more with
    | nil =>
      have hsame : encode t = encode s := by rw [hbytes t, ht, List.append_nil, ← hbytes s]
      exact Nat.le_of_eq (congrArg List.length hsame)
    | cons piece more =>
      -- The first piece behind `s` is broken, but it is one of the whole pieces of `t`.
      obtain ⟨rfl, -⟩ := List.cons.inj hbroken
      have hmem : firstPiece lead rest ∈ t.toList.map Piece.whole := by simp [ht]
      obtain ⟨c, -, hc⟩ := List.mem_map.1 hmem
      rw [← hc] at h
      cases h

theorem decodeLossy_of_error {lead : UInt8} {rest : List UInt8} {fault : Fault}
    (h : (firstPiece lead rest).reading = .error fault) :
    decodeLossy (lead :: rest) =
      "\uFFFD" ++ decodeLossy ((lead :: rest).drop (firstPiece lead rest).bytes.length) := by
  have hcharacter : (firstPiece lead rest).character = '\uFFFD' := by simp [Piece.character, h]
  rw [decodeLossy_cons, hcharacter, bytes_firstPiece]
  rfl

theorem locates_of_decode {bytes : List UInt8} {e : DecodeError} (h : decode bytes = .error e) :
    Locates e bytes := by
  obtain ⟨s, rest, rfl, rfl | ⟨lead, tail, fault, rfl, hfault⟩⟩ := exists_eq_encode_append bytes
  · rw [List.append_nil, decode_encode] at h
    cases h
  rw [decode_encode_append hfault] at h
  obtain rfl := Except.error.inj h
  have htake : (encode s ++ lead :: tail).take (encode s).length = encode s := List.take_left
  have hdrop : (encode s ++ lead :: tail).drop (encode s).length = lead :: tail := List.drop_left
  refine ⟨?_, ?_, ?_, ?_, ?_⟩
  · rw [htake, decode_encode, decodeLossy_encode]
  · exact ⟨s, htake.symm⟩
  · rintro n ⟨t, ht⟩
    have hle := length_encode_le hfault (ht ▸ List.take_append_drop n _)
    have hlength := congrArg List.length ht
    rw [List.length_take, List.length_append, List.length_cons] at hlength
    dsimp only
    omega
  · rw [hdrop]
    exact isMaximalPart_firstPiece lead tail
  · rw [htake, ← List.drop_drop, hdrop, decodeLossy_encode, decodeLossy_encode_append,
      decodeLossy_of_error hfault, String.append_assoc]

end RubyOutline.Utf8
