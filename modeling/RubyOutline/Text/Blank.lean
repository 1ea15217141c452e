/-!
Blank characters, and taking them off the ends of a text. Blank means white
space in the bidirectional sense of Unicode: the tabulators and line ends, the
four information separators, and the space characters. The zero-width
characters are not blank.
-/

namespace RubyOutline.Text

def isBlank (c : Char) : Bool :=
  let n := c.toNat
  (0x09 ≤ n && n ≤ 0x0D) || (0x1C ≤ n && n ≤ 0x20) || n == 0x85 || n == 0xA0 || n == 0x1680 ||
    (0x2000 ≤ n && n ≤ 0x200A) || n == 0x2028 || n == 0x2029 || n == 0x202F || n == 0x205F ||
    n == 0x3000

/-- A list of characters without those at either end that satisfy a test. -/
def trimBy (skip : Char → Bool) (cs : List Char) : List Char :=
  ((cs.dropWhile skip).reverse.dropWhile skip).reverse

def strip (s : String) : String := String.ofList (trimBy isBlank s.toList)

def firstLine (s : String) : String := String.ofList (s.toList.takeWhile (· != '\n'))

/-- Line ends of other systems read as line feeds: a carriage return counts as
one, together with the line feed after it if there is one. -/
def unifyLineEnds : List Char → List Char
  | '\r' :: '\n' :: cs => '\n' :: unifyLineEnds cs
  | '\r' :: cs => '\n' :: unifyLineEnds cs
  | c :: cs => c :: unifyLineEnds cs
  | [] => []

/-- The parts of a text between the places where a character stands; always at
least one part. -/
def splitAtChar (sep : Char) : List Char → List (List Char)
  | [] => [[]]
  | c :: cs =>
    let parts := splitAtChar sep cs
    if c = sep then [] :: parts else (c :: parts.headD []) :: parts.tail

end RubyOutline.Text
