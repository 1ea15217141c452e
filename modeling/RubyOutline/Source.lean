import RubyOutline.Text.Utf8
import RubyOutline.Tree.Basic

/-!
The source a tree was read from, and the text of a node in it. Spans are taken
as they are: past the end they are cut off, and reversed ones are empty. A span
may cut through a character, so the text is decoded leniently.
-/

namespace RubyOutline

/-- The bytes a span covers. Both ends are brought into the source first, so that
an end far outside asks for no more memory than the source has. -/
def Span.bytes (span : Span) (source : ByteArray) : List UInt8 :=
  (source.extract (min span.start source.size) (min span.stop source.size)).data.toList

/-- The decoded text of a span. -/
def Span.text (span : Span) (source : ByteArray) : String :=
  Utf8.decodeLossy (span.bytes source)

theorem Span.bytes_eq (span : Span) (source : ByteArray) :
    span.bytes source =
      (source.data.toList.drop span.start).take (span.stop - span.start) := by
  have size_eq : source.size = source.data.toList.length := Array.length_toList.symm
  simp only [Span.bytes, ByteArray.data_extract, Array.toList_extract,
    List.extract_eq_take_drop, size_eq]
  generalize source.data.toList = bytes
  by_cases h : span.start ≤ bytes.length
  · rw [Nat.min_eq_left h, List.take_eq_take_iff, List.length_drop]
    omega
  · rw [List.drop_of_length_le (by omega), List.drop_of_length_le (by omega)]
    simp

def Place.text (p : Place) (source : ByteArray) : String := p.label.span.text source

end RubyOutline
