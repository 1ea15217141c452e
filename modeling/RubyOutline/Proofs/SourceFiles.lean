import RubyOutline.CommandLine.Program
import RubyOutline.Proofs.Utf8.WellFormed

/-!
Reading a source from a file. The file is decoded strictly, while the spans of a tree are
decoded leniently, so the two have to agree on what a text is: the read goes through exactly for
the bytes that lenient decoding loses nothing of, and otherwise it fails at the first stretch
that lenient decoding replaces.
-/

namespace RubyOutline.CommandLine

open Utf8

/-- A file with these bytes is what the path leads to. -/
structure World.Holds (world : World) (path : String) (bytes : List UInt8) : Prop where
  ne_dash : path ≠ "-"
  null_notMem : '\x00' ∉ path.toList
  file_eq : world.file path = .contents bytes

variable {world : World} {path : String} {bytes : List UInt8}

namespace World.Holds

theorem readSource_of_decode (h : world.Holds path bytes) :
    (∀ s, decode bytes = .ok s → readSource world path = .ok (sourceText s)) ∧
      ∀ e, decode bytes = .error e → readSource world path = .error (.undecodable e) := by
  have hnull : ¬ path.toList.contains '\x00' = true := by simpa using h.null_notMem
  rw [readSource, if_neg h.ne_dash, if_neg hnull]
  constructor
  · intro s hs
    simp only [h.file_eq, hs]
  · intro e he
    simp only [h.file_eq, he]

theorem readSource_eq_ok (h : world.Holds path bytes) (hbytes : IsWellFormed bytes) :
    readSource world path = .ok (sourceText (decodeLossy bytes)) :=
  h.readSource_of_decode.1 _ (decode_eq_ok_iff.2 (isWellFormed_iff.1 hbytes))

theorem readSource_eq_error (h : world.Holds path bytes) (hbytes : ¬ IsWellFormed bytes) :
    ∃ e, readSource world path = .error (.undecodable e) ∧ Locates e bytes := by
  cases hdecode : decode bytes with
  | ok s => exact absurd ⟨s, decode_eq_ok_iff.1 hdecode⟩ hbytes
  | error e => exact ⟨e, h.readSource_of_decode.2 e hdecode, locates_of_decode hdecode⟩

theorem exists_readSource_iff (h : world.Holds path bytes) :
    (∃ code, readSource world path = .ok code) ↔ IsWellFormed bytes := by
  refine ⟨fun ⟨code, hcode⟩ => ?_, fun hbytes => ⟨_, h.readSource_eq_ok hbytes⟩⟩
  by_contra hbytes
  obtain ⟨e, he, -⟩ := h.readSource_eq_error hbytes
  cases hcode.symm.trans he

end World.Holds

/-- A file is read when, and only when, lenient decoding would have lost nothing of it. When it
is not, the error tells where and over how many bytes lenient decoding starts to replace. -/
theorem readSource_of_holds (h : world.Holds path bytes) :
    ((∃ code, readSource world path = .ok code) ↔ encode (decodeLossy bytes) = bytes) ∧
      (encode (decodeLossy bytes) = bytes ↔ IsWellFormed bytes) ∧
      (IsWellFormed bytes → readSource world path = .ok (sourceText (decodeLossy bytes))) ∧
      (¬ IsWellFormed bytes →
        ∃ e, readSource world path = .error (.undecodable e) ∧ Locates e bytes) ∧
      decodeLossy (encode (decodeLossy bytes)) = decodeLossy bytes :=
  ⟨h.exists_readSource_iff.trans isWellFormed_iff, isWellFormed_iff.symm, h.readSource_eq_ok,
    h.readSource_eq_error, decodeLossy_encode _⟩

/-- A character of four bytes, cut after the third. -/
def tornBytes : List UInt8 := [0x61, 0xF0, 0x9F, 0x98, 0x41]

def tornWorld : World where
  environment _ := none
  input := ""
  file _ := .contents tornBytes
  grammar := .unavailable

theorem readSource_of_holds_torn :
    ∃ e, readSource tornWorld "torn.rb" = .error (.undecodable e) ∧ e.position = 1 ∧
      e.bytes = [0xF0, 0x9F, 0x98] ∧ Locates e tornBytes := by
  have hholds : tornWorld.Holds "torn.rb" tornBytes := ⟨by decide, by decide, rfl⟩
  have hpiece : (firstPiece 0xF0 [0x9F, 0x98, 0x41]).reading = .error .invalidContinuation := rfl
  have hdecode : decode tornBytes = .error ⟨1, [0xF0, 0x9F, 0x98], .invalidContinuation⟩ :=
    decode_encode_append hpiece "a"
  obtain ⟨-, -, -, hrefused, -⟩ := readSource_of_holds hholds
  have hbytes : ¬ IsWellFormed tornBytes := fun ⟨s, hs⟩ => by
    rw [decode_eq_ok_iff.2 hs] at hdecode
    cases hdecode
  obtain ⟨e, hread, hlocates⟩ := hrefused hbytes
  have htorn := hholds.readSource_of_decode.2 _ hdecode
  obtain rfl := Crash.undecodable.inj (Except.error.inj (htorn.symm.trans hread))
  exact ⟨_, htorn, rfl, rfl, hlocates⟩

end RubyOutline.CommandLine
