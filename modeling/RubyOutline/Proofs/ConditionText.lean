import RubyOutline.Proofs.Origin
import RubyOutline.Proofs.Trimming
import RubyOutline.Proofs.Utf8.Cut

/-!
The text of a condition. A line feed is never part of a longer spelling, and bytes that are
broken off in front of it are replaced without it. So it makes no difference whether a text is cut
at its first line feed or the bytes are, before they are decoded: what is recorded of a condition
depends on the bytes of its first line alone.
-/

namespace RubyOutline

open Text Utf8

namespace Utf8

/-- Every character of a lenient reading replaces something or is spelled in the bytes. -/
theorem eq_or_isInfix_of_mem_decodeLossy {bytes : List UInt8} {c : Char}
    (h : c ∈ (decodeLossy bytes).toList) : c = '\uFFFD' ∨ String.utf8EncodeChar c <:+: bytes := by
  fun_induction pieces bytes with
  | case1 => simp at h
  | case2 lead rest piece ih =>
    have hbytes := bytes_firstPiece_append_drop lead rest
    rw [decodeLossy_cons, String.toList_append, List.mem_append] at h
    obtain hfirst | hrest := h
    · rw [String.toList_singleton, List.mem_singleton, Piece.character] at hfirst
      split at hfirst
      · next c' hreading =>
        subst hfirst
        rw [← hbytes, firstPiece_eq_whole hreading]
        exact .inr (List.prefix_append _ _).isInfix
      · exact .inl hfirst
    · refine (ih hrest).imp_right fun hspelled => hspelled.trans ?_
      rw [← hbytes]
      exact (List.suffix_append _ _).isInfix

theorem newline_notMem_decodeLossy {bytes : List UInt8} (h : 0x0A ∉ bytes) :
    '\n' ∉ (decodeLossy bytes).toList := by
  intro hmem
  obtain heq | hspelled := eq_or_isInfix_of_mem_decodeLossy hmem
  · cases heq
  · exact h (hspelled.subset (by decide))

/-- The bytes in front of the first line feed. -/
def firstLineBytes (bytes : List UInt8) : List UInt8 := bytes.takeWhile (· != 0x0A)

theorem newline_notMem_firstLineBytes (bytes : List UInt8) : 0x0A ∉ firstLineBytes bytes := by
  intro h
  simpa using List.mem_takeWhile_imp h

/-- Behind the first line the bytes end, or a line feed comes. -/
theorem exists_firstLineBytes_append (bytes : List UInt8) :
    ∃ rest, firstLineBytes bytes ++ rest = bytes ∧ ∀ b ∈ rest.head?, b = 0x0A := by
  refine ⟨bytes.dropWhile (· != 0x0A), List.takeWhile_append_dropWhile, fun b hb => ?_⟩
  have hhead := List.head?_dropWhile_not (· != 0x0A) bytes
  rw [hb] at hhead
  simpa using hhead

theorem firstLineBytes_append_newline (front rest : List UInt8) :
    firstLineBytes (front ++ 0x0A :: rest) = firstLineBytes front := by
  induction front with
  | nil => rfl
  | cons b front ih =>
    simp only [firstLineBytes, List.cons_append, List.takeWhile_cons] at ih ⊢
    rw [ih]

theorem newline_head_decodeLossy {bytes : List UInt8} (h : ∀ b ∈ bytes.head?, b = 0x0A) :
    ∀ c ∈ (decodeLossy bytes).toList.head?, c = '\n' := by
  cases bytes with
  | nil => simp
  | cons b bytes =>
    obtain rfl := h b rfl
    have hread : decodeLossy (0x0A :: bytes) = "\n" ++ decodeLossy bytes :=
      decodeLossy_encode_append "\n" bytes
    simp [hread]

/-- Cutting at the first line feed and decoding can be done in either order. -/
theorem firstLine_decodeLossy (bytes : List UInt8) :
    firstLine (decodeLossy bytes) = decodeLossy (firstLineBytes bytes) := by
  obtain ⟨rest, hbytes, hrest⟩ := exists_firstLineBytes_append bytes
  have hline := newline_notMem_decodeLossy (newline_notMem_firstLineBytes bytes)
  -- A line feed continues nothing, so a character that is broken off in front of it stays there.
  have hcut : ∀ b ∈ rest.head?, continuation.has b = false := fun b hb => by
    rw [hrest b hb]
    rfl
  calc firstLine (decodeLossy bytes)
      = firstLine (decodeLossy (firstLineBytes bytes) ++ decodeLossy rest) := by
        rw [← decodeLossy_append hcut, hbytes]
    _ = decodeLossy (firstLineBytes bytes) :=
        firstLine_append hline (newline_head_decodeLossy hrest)

end Utf8

namespace Place

variable {source : ByteArray} {p : Place}

/-- The bytes of a node. -/
def bytes (source : ByteArray) (p : Place) : List UInt8 := p.label.span.bytes source

theorem conditionText_eq (source : ByteArray) (p : Place) :
    p.conditionText source = strip (decodeLossy (firstLineBytes (p.bytes source))) :=
  congrArg strip (firstLine_decodeLossy _)

theorem newline_notMem_conditionText (source : ByteArray) (p : Place) :
    '\n' ∉ (p.conditionText source).toList :=
  fun h => newline_notMem_firstLine _ (mem_of_mem_strip h)

theorem conditionText_congr {source' : ByteArray} {p' : Place} {front rest rest' : List UInt8}
    (h : p.bytes source = front ++ 0x0A :: rest) (h' : p'.bytes source' = front ++ 0x0A :: rest') :
    p'.conditionText source' = p.conditionText source := by
  rw [conditionText_eq, conditionText_eq, h, h', firstLineBytes_append_newline,
    firstLineBytes_append_newline]

theorem found_visit_of_conditional (hp : p.kind = .conditional) (scan : Scan) :
    (scan.visit source p).found =
      scan.found.push (.condition ⟨p.conditionText source, some p⟩) := by
  simp only [Scan.visit, finding?, hp]

theorem condition_mem_of_mem_walk {m : Place} (hp : p.kind = .conditional) (hmem : p ∈ m.walk) :
    ⟨p.conditionText source, some p⟩ ∈ (m.methodOutline source).conditions := by
  rw [conditions_methodOutline]
  exact List.mem_map.2 ⟨p, List.mem_filter.2 ⟨hmem, by simp [hp]⟩, rfl⟩

/-- What is recorded of a condition is the decoded first line of its bytes, without the blanks at
either end. So it has no line feed in it, it is empty only where that line is blank, and bytes
behind the first line feed make no difference. -/
theorem recorded_condition (source : ByteArray) (hp : p.kind = .conditional) :
    (∀ scan : Scan, (scan.visit source p).found =
        scan.found.push (.condition ⟨p.conditionText source, some p⟩)) ∧
      (∀ m : Place, p ∈ m.walk →
        ⟨p.conditionText source, some p⟩ ∈ (m.methodOutline source).conditions) ∧
      p.conditionText source = strip (decodeLossy (firstLineBytes (p.bytes source))) ∧
      firstLine (p.text source) = decodeLossy (firstLineBytes (p.bytes source)) ∧
      '\n' ∉ (p.conditionText source).toList ∧
      strip (p.conditionText source) = p.conditionText source ∧
      (p.conditionText source = "" ↔
        ∀ c ∈ (firstLine (p.text source)).toList, isBlank c = true) ∧
      ∀ (source' : ByteArray) (p' : Place) (front rest rest' : List UInt8),
        p.bytes source = front ++ 0x0A :: rest → p'.bytes source' = front ++ 0x0A :: rest' →
          p'.conditionText source' = p.conditionText source :=
  ⟨found_visit_of_conditional hp, fun _ => condition_mem_of_mem_walk hp,
    conditionText_eq source p, firstLine_decodeLossy _, newline_notMem_conditionText source p,
    strip_strip _, strip_eq_empty_iff, fun _ _ _ _ _ => conditionText_congr⟩

/-- A character that is cut by the end of its line, and a broken one on the next line. -/
def tornCondition : Place :=
  .top ⟨"if", ⟨0, 6⟩, some [.whole 0, .whole 0], none, true, false, false, false⟩ []

theorem recorded_condition_torn :
    tornCondition.kind = .conditional ∧
      tornCondition.conditionText ⟨#[0x69, 0x66, 0x20, 0xC3, 0x0A, 0xFF]⟩ = "if \uFFFD" ∧
      tornCondition.conditionText ⟨#[0x69, 0x66, 0x20, 0xC3, 0x0A, 0x78]⟩ = "if \uFFFD" := by
  have hkind : tornCondition.kind = .conditional := by decide
  have hline : decodeLossy [0x69, 0x66, 0x20, 0xC3] = "if \uFFFD" := by
    have hfront : decodeLossy [0x69, 0x66, 0x20, 0xC3] = "if " ++ decodeLossy [0xC3] :=
      decodeLossy_encode_append "if " [0xC3]
    have hpart : [0xC3] <+: String.utf8EncodeChar 'é' := ⟨[0xA9], by decide⟩
    rw [hfront, decodeLossy_of_isPrefix hpart (by simp) (by decide)]
    decide
  obtain ⟨-, -, htext, -, -, -, -, hcongr⟩ :=
    recorded_condition ⟨#[0x69, 0x66, 0x20, 0xC3, 0x0A, 0xFF]⟩ hkind
  have hfirst := htext.trans (congrArg strip hline)
  have hstrip : strip "if \uFFFD" = "if \uFFFD" := by decide
  have hsame := hcongr ⟨#[0x69, 0x66, 0x20, 0xC3, 0x0A, 0x78]⟩ tornCondition
    [0x69, 0x66, 0x20, 0xC3] [0xFF] [0x78] (by decide) (by decide)
  exact ⟨hkind, hfirst.trans hstrip, hsame.trans (hfirst.trans hstrip)⟩

end Place

end RubyOutline
