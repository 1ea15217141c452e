import RubyOutline.Text.CodePoint
import RubyOutline.Text.Utf8

/-!
The encoding of a document that does not name it. A byte order mark decides; a
document without one begins with a character of ASCII, so the zeros among its
first bytes tell how wide its units are and which way round. Surrogates that
stand alone are let through in every encoding.
-/

namespace RubyOutline.Text

inductive Encoding where
  | utf8
  | utf16 (bigEndian : Bool)
  | utf32 (bigEndian : Bool)
  deriving DecidableEq, Repr

/-- The encoding of bytes without a byte order mark. -/
def unmarkedEncoding : List UInt8 → Encoding
  | [0, _] => .utf16 true
  | [_, 0] => .utf16 false
  | a :: b :: c :: d :: _ =>
    if a = 0 then if b = 0 then .utf32 true else .utf16 true
    else if b = 0 then if c = 0 ∧ d = 0 then .utf32 false else .utf16 false
    else .utf8
  | _ => .utf8

/-- The encoding of some bytes, and the bytes after their byte order mark. -/
def detectEncoding : List UInt8 → Encoding × List UInt8
  | 0x00 :: 0x00 :: 0xFE :: 0xFF :: rest => (.utf32 true, rest)
  | 0xFF :: 0xFE :: 0x00 :: 0x00 :: rest => (.utf32 false, rest)
  | 0xFE :: 0xFF :: rest => (.utf16 true, rest)
  | 0xFF :: 0xFE :: rest => (.utf16 false, rest)
  | 0xEF :: 0xBB :: 0xBF :: rest => (.utf8, rest)
  | bytes => (unmarkedEncoding bytes, bytes)

/-- Reads pieces of UTF-8. The three bytes of an encoded surrogate are broken
pieces one by one. -/
def widenPieces : List Utf8.Piece → Option WideText
  | [] => some []
  | ⟨_, .ok c⟩ :: rest => (widenPieces rest).map (.scalar c :: ·)
  | ⟨[0xED], .error _⟩ :: ⟨[b], .error _⟩ :: ⟨[c], .error _⟩ :: rest =>
    if 0xA0 ≤ b ∧ b ≤ 0xBF ∧ Utf8.continuation.has c then
      let offset := (b.toNat - 0xA0) * 64 + (c.toNat - 0x80)
      (widenPieces rest).map (.surrogate (Fin.ofNat 0x800 offset) :: ·)
    else none
  | _ => none

/-- The numbers that bytes make in groups of two, if they come out even. -/
def units16 (bigEndian : Bool) : List UInt8 → Option (List Nat)
  | [] => some []
  | a :: b :: rest =>
    let unit := if bigEndian then a.toNat * 256 + b.toNat else b.toNat * 256 + a.toNat
    (units16 bigEndian rest).map (unit :: ·)
  | _ => none

/-- Reads units of UTF-16, two surrogates that fit together as one character. -/
def widenUnits : List Nat → Option WideText
  | [] => some []
  | [unit] => (CodePoint.ofNat? unit).map ([·])
  | unit :: next :: rest =>
    if isHighSurrogate unit && isLowSurrogate next then
      (widenUnits rest).map (joinSurrogates unit next :: ·)
    else do
      let c ← CodePoint.ofNat? unit
      return c :: (← widenUnits (next :: rest))

def widenWords (bigEndian : Bool) : List UInt8 → Option WideText
  | [] => some []
  | a :: b :: c :: d :: rest =>
    let bytes := if bigEndian then [a, b, c, d] else [d, c, b, a]
    do
      let first ← CodePoint.ofNat? (bytes.foldl (fun n b => n * 256 + b.toNat) 0)
      return first :: (← widenWords bigEndian rest)
  | _ => none

/-- Decodes bytes in the encoding that they show. -/
def decodeDetected (bytes : List UInt8) : Option WideText :=
  match detectEncoding bytes with
  | (.utf8, rest) => widenPieces (Utf8.pieces rest)
  | (.utf16 bigEndian, rest) => (units16 bigEndian rest).bind widenUnits
  | (.utf32 bigEndian, rest) => widenWords bigEndian rest

end RubyOutline.Text
