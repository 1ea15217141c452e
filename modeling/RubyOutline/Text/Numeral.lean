import RubyOutline.Text.Blank
import RubyOutline.Text.Digit

/-!
Integers as people write them: blanks around, a sign, and decimal digits of any
script, which single underscores may keep apart. Texts with more digits than
`digitLimit` are refused, whatever the digits are.
-/

namespace RubyOutline.Text

/-- The blanks a numeral may stand between: all but the information separators. -/
def isNumeralBlank (c : Char) : Bool := isBlank c && !(0x1C ≤ c.toNat && c.toNat ≤ 0x1F)

def digitLimit : Nat := 4300

/-- The values of the digits that follow a digit. -/
def moreDigits : List Char → Option (List Nat)
  | [] => some []
  | '_' :: c :: cs => do
    let d ← digitValue? c
    return d :: (← moreDigits cs)
  | c :: cs => do
    let d ← digitValue? c
    return d :: (← moreDigits cs)

/-- The values of a whole run of digits. -/
def digits? : List Char → Option (List Nat)
  | [] => none
  | c :: cs => do
    let d ← digitValue? c
    return d :: (← moreDigits cs)

/-- The number that digits denote, the first one weighing most. -/
def ofDigits (ds : List Nat) : Nat := ds.foldl (fun n d => n * 10 + d) 0

/-- The number a run of digits denotes, unless the run is too long. -/
def natural? (cs : List Char) : Option Nat := do
  let ds ← digits? cs
  if ds.length ≤ digitLimit then some (ofDigits ds) else none

def signed? : List Char → Option Int
  | '+' :: cs => (natural? cs).map Int.ofNat
  | '-' :: cs => (natural? cs).map fun n => -Int.ofNat n
  | cs => (natural? cs).map Int.ofNat

/-- The integer a text denotes. -/
def integer? (s : String) : Option Int := signed? (trimBy isNumeralBlank s.toList)

end RubyOutline.Text
