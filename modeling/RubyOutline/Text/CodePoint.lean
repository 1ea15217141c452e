/-!
Texts that may hold surrogates. Documents that escape characters by number can
name a surrogate on its own, which is no character; such a text can be passed
on and looked at, but it has no encoding.
-/

namespace RubyOutline.Text

inductive CodePoint where
  | scalar (c : Char)
  /-- A surrogate, counted from the first of them. -/
  | surrogate (offset : Fin 0x800)
  deriving DecidableEq, Repr

namespace CodePoint

def value : CodePoint → Nat
  | scalar c => c.toNat
  | surrogate offset => 0xD800 + offset

/-- The code point of a number, unless the number is too large. -/
def ofNat? (n : Nat) : Option CodePoint :=
  if h : 0xD800 ≤ n ∧ n < 0xE000 then some (surrogate ⟨n - 0xD800, by omega⟩)
  else if n < 0x110000 then some (scalar (Char.ofNat n))
  else none

end CodePoint

abbrev WideText := List CodePoint

/-- A text without surrogates, as a wide text. -/
def wide (s : String) : WideText := s.toList.map .scalar

/-- The code point that two surrogates make together, `high` and `low` being
their values. -/
def joinSurrogates (high low : Nat) : CodePoint :=
  .scalar (Char.ofNat (0x10000 + (high - 0xD800) * 0x400 + (low - 0xDC00)))

def isHighSurrogate (n : Nat) : Bool := 0xD800 ≤ n && n < 0xDC00

def isLowSurrogate (n : Nat) : Bool := 0xDC00 ≤ n && n < 0xE000

/-- Why a text has no encoding: the first run of surrogates in it. -/
structure EncodeError where
  position : Nat
  surrogates : List (Fin 0x800)
  deriving DecidableEq, Repr

/-- The surrogates at the front of a text. -/
def leadingSurrogates : WideText → List (Fin 0x800)
  | .surrogate offset :: rest => offset :: leadingSurrogates rest
  | _ => []

/-- The characters of a text whose first code point has a position. -/
def charactersFrom (position : Nat) : WideText → Except EncodeError (List Char)
  | [] => .ok []
  | .scalar c :: rest => (charactersFrom (position + 1) rest).map (c :: ·)
  | .surrogate offset :: rest => .error ⟨position, offset :: leadingSurrogates rest⟩

/-- A wide text as a text that can be encoded. -/
def narrow (t : WideText) : Except EncodeError String := (charactersFrom 0 t).map String.ofList

/-- The escape that names a surrogate. -/
def surrogateEscape (offset : Fin 0x800) : String :=
  "\\u" ++ String.ofList (Nat.toDigits 16 (0xD800 + offset))

/-- A single surrogate is shown, several are named by their positions. -/
def EncodeError.message (e : EncodeError) : String :=
  let place := match e.surrogates with
    | [offset] => s!"character '{surrogateEscape offset}' in position {e.position}"
    | run => s!"characters in position {e.position}-{e.position + run.length - 1}"
  s!"'utf-8' codec can't encode {place}: surrogates not allowed"

theorem narrow_wide (s : String) : narrow (wide s) = .ok s := by
  have h (position : Nat) (cs : List Char) :
      charactersFrom position (cs.map .scalar) = .ok cs := by
    induction cs generalizing position with
    | nil => rfl
    | cons c cs ih => simp [charactersFrom, ih, Except.map]
  simp [narrow, wide, h, Except.map]

end RubyOutline.Text
