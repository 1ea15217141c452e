/-!
Capital letters, as far as they are letters of ASCII. A few letters outside
ASCII have capitals inside it, some of them more than one; a letter whose
capital lies outside ASCII is left as it is, which is outside ASCII too.
-/

namespace RubyOutline.Text

def capital (c : Char) : List Char :=
  match c.toNat with
  | 0xDF => ['S', 'S']
  | 0x131 => ['I']
  | 0x17F => ['S']
  | 0xFB00 => ['F', 'F']
  | 0xFB01 => ['F', 'I']
  | 0xFB02 => ['F', 'L']
  | 0xFB03 => ['F', 'F', 'I']
  | 0xFB04 => ['F', 'F', 'L']
  | 0xFB05 => ['S', 'T']
  | 0xFB06 => ['S', 'T']
  | _ => [c.toUpper]

def capitals (cs : List Char) : List Char := cs.flatMap capital

end RubyOutline.Text
