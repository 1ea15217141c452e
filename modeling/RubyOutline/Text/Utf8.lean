/-!
UTF-8 text as a sequence of bytes. A byte sequence is cut into pieces, each of
which is either one character or the longest beginning of a character that was
not carried through. Both decoders are views of the same cut: the lenient one
reads every broken piece as one replacement character, the strict one stops at
the first. They can therefore never disagree about what is well formed.
-/

namespace RubyOutline.Utf8

/-- The bytes from `low` to `high`, both included. -/
structure ByteRange where
  low : UInt8
  high : UInt8
  deriving DecidableEq, Repr

def ByteRange.has (r : ByteRange) (b : UInt8) : Bool := r.low ≤ b && b ≤ r.high

/-- The bytes that continue a character unless its first byte narrows them. -/
def continuation : ByteRange := ⟨0x80, 0xBF⟩

/-- The ranges that the bytes after a first byte fall in, one after the other;
`none` when no character begins with that byte. The narrowed ranges keep out
overlong forms, surrogates and values past the last code point. -/
def tailRanges (lead : UInt8) : Option (List ByteRange) :=
  if lead < 0x80 then some []
  else if lead < 0xC2 then none
  else if lead < 0xE0 then some [continuation]
  else if lead = 0xE0 then some [⟨0xA0, 0xBF⟩, continuation]
  else if lead = 0xED then some [⟨0x80, 0x9F⟩, continuation]
  else if lead < 0xF0 then some [continuation, continuation]
  else if lead = 0xF0 then some [⟨0x90, 0xBF⟩, continuation, continuation]
  else if lead < 0xF4 then some [continuation, continuation, continuation]
  else if lead = 0xF4 then some [⟨0x80, 0x8F⟩, continuation, continuation]
  else none

/-- The longest run at the front of the bytes that goes through the ranges. -/
def run : List ByteRange → List UInt8 → List UInt8
  | r :: rs, b :: bs => if r.has b then b :: run rs bs else []
  | _, _ => []

/-- Why a piece is no character. -/
inductive Fault where
  | invalidStart
  | invalidContinuation
  | unexpectedEnd
  deriving DecidableEq, Repr

def Fault.message : Fault → String
  | .invalidStart => "invalid start byte"
  | .invalidContinuation => "invalid continuation byte"
  | .unexpectedEnd => "unexpected end of data"

/-- The bits a first byte contributes when `n` bytes follow it. -/
def leadBits (lead : UInt8) : Nat → Nat
  | 0 => lead.toNat
  | 1 => lead.toNat % 32
  | 2 => lead.toNat % 16
  | _ => lead.toNat % 8

/-- Each further byte contributes its six low bits. -/
def scalarValue (lead : UInt8) (tail : List UInt8) : Nat :=
  tail.foldl (fun n b => n * 64 + b.toNat % 64) (leadBits lead tail.length)

/-- A stretch of bytes that is read as a unit. -/
structure Piece where
  bytes : List UInt8
  reading : Except Fault Char

/-- The piece at the front of a non-empty byte sequence. -/
def firstPiece (lead : UInt8) (rest : List UInt8) : Piece :=
  match tailRanges lead with
  | none => ⟨[lead], .error .invalidStart⟩
  | some ranges =>
    let tail := run ranges rest
    if tail.length = ranges.length then
      ⟨lead :: tail, .ok (Char.ofNat (scalarValue lead tail))⟩
    else if tail.length = rest.length then
      ⟨lead :: tail, .error .unexpectedEnd⟩
    else
      ⟨lead :: tail, .error .invalidContinuation⟩

theorem run_length_le (ranges : List ByteRange) (bytes : List UInt8) :
    (run ranges bytes).length ≤ bytes.length := by
  fun_induction run ranges bytes with
  | case1 r rs b bs h ih => simpa using ih
  | case2 => simp
  | case3 => simp

/-- The cut of a byte sequence into pieces. -/
def pieces : List UInt8 → List Piece
  | [] => []
  | lead :: rest =>
    let piece := firstPiece lead rest
    piece :: pieces (rest.drop (piece.bytes.length - 1))
termination_by bytes => bytes.length
decreasing_by
  simp only [List.length_drop, List.length_cons]
  omega

/-- A broken piece reads as one U+FFFD. -/
def Piece.character (p : Piece) : Char :=
  match p.reading with
  | .ok c => c
  | .error _ => '\uFFFD'

def decodeLossy (bytes : List UInt8) : String :=
  String.ofList ((pieces bytes).map Piece.character)

/-- The first broken piece of a byte sequence, and where it begins. -/
structure DecodeError where
  position : Nat
  bytes : List UInt8
  fault : Fault

/-- Decodes pieces that begin at a position, up to the first broken one. -/
def decodePieces (position : Nat) : List Piece → Except DecodeError (List Char)
  | [] => .ok []
  | p :: ps =>
    match p.reading with
    | .ok c => (decodePieces (position + p.bytes.length) ps).map (c :: ·)
    | .error fault => .error ⟨position, p.bytes, fault⟩

def decode (bytes : List UInt8) : Except DecodeError String :=
  (decodePieces 0 (pieces bytes)).map String.ofList

/-- Two lower-case hexadecimal digits. -/
def hexByte (b : UInt8) : String :=
  String.ofList [Nat.digitChar (b.toNat / 16), Nat.digitChar (b.toNat % 16)]

/-- A single byte is named by its value, several by their positions. -/
def DecodeError.message (e : DecodeError) : String :=
  let place := match e.bytes with
    | [b] => s!"byte 0x{hexByte b} in position {e.position}"
    | bytes => s!"bytes in position {e.position}-{e.position + bytes.length - 1}"
  s!"'utf-8' codec can't decode {place}: {e.fault.message}"

end RubyOutline.Utf8
