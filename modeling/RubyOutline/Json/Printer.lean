import RubyOutline.Json.Basic
import RubyOutline.Text.Quoted

/-!
Writing JSON. A style says how lines are broken and which characters are
escaped; a document without lines is written without any blanks.
-/

namespace RubyOutline.Json

structure Style where
  /-- Every item on a line of its own, indented by its depth. -/
  lines : Bool
  /-- Everything outside printable ASCII is escaped, and not only what has to be. -/
  ascii : Bool
  deriving DecidableEq, Repr

/-- For people: two blanks for every level, and nothing but ASCII. -/
def Style.indented : Style := ⟨true, true⟩

/-- For programs: one line, characters as they are. -/
def Style.compact : Style := ⟨false, false⟩

/-- A code unit of UTF-16 by its number. -/
def unitEscape (n : Nat) : List Char := '\\' :: 'u' :: Text.hexDigits 4 n

/-- A character by the numbers of its code units. -/
def unitsEscape (c : Char) : List Char :=
  let n := c.toNat
  if n < 0x10000 then unitEscape n
  else unitEscape (0xD800 + (n - 0x10000) / 0x400) ++ unitEscape (0xDC00 + (n - 0x10000) % 0x400)

/-- Characters that stand for themselves between quotes. -/
def Style.isPlain (style : Style) (c : Char) : Bool :=
  if style.ascii then 0x20 ≤ c.toNat && c.toNat < 0x7F else 0x20 ≤ c.toNat

/-- A character as it is written between quotes. -/
def Style.char (style : Style) (c : Char) : List Char :=
  if c = '"' then ['\\', '"']
  else if c = '\\' then ['\\', '\\']
  else if c = '\n' then ['\\', 'n']
  else if c = '\r' then ['\\', 'r']
  else if c = '\t' then ['\\', 't']
  else if c = '\x0c' then ['\\', 'f']
  else if c = '\x08' then ['\\', 'b']
  else if style.isPlain c then [c]
  else unitsEscape c

def Style.text (style : Style) (s : String) : List Char :=
  '"' :: s.toList.flatMap style.char ++ ['"']

/-- The beginning of a line at some depth. -/
def Style.newLine (style : Style) (depth : Nat) : List Char :=
  if style.lines then '\n' :: List.replicate (2 * depth) ' ' else []

/-- What stands between the name of a member and its value. -/
def Style.colon (style : Style) : List Char := if style.lines then [':', ' '] else [':']

mutual

/-- The characters of a document that stands at some depth. -/
def chars (style : Style) (depth : Nat) : Json String → List Char
  | null => "null".toList
  | bool true => "true".toList
  | bool false => "false".toList
  | int value => (toString value).toList
  | real literal => literal.toList
  | string s => style.text s
  | array [] => ['[', ']']
  | array (v :: vs) =>
    '[' :: style.newLine (depth + 1) ++ chars style (depth + 1) v ++
      itemChars style (depth + 1) vs ++ style.newLine depth ++ [']']
  | object [] => ['{', '}']
  | object ((name, v) :: rest) =>
    '{' :: style.newLine (depth + 1) ++ style.text name ++ style.colon ++
      chars style (depth + 1) v ++ memberChars style (depth + 1) rest ++
      style.newLine depth ++ ['}']

/-- The items after the first, each after a comma. -/
def itemChars (style : Style) (depth : Nat) : List (Json String) → List Char
  | [] => []
  | v :: vs => ',' :: style.newLine depth ++ chars style depth v ++ itemChars style depth vs

/-- The members after the first, each after a comma. -/
def memberChars (style : Style) (depth : Nat) : List (String × Json String) → List Char
  | [] => []
  | (name, v) :: rest =>
    ',' :: style.newLine depth ++ style.text name ++ style.colon ++ chars style depth v ++
      memberChars style depth rest

end

def render (style : Style) (v : Json String) : String := String.ofList (chars style 0 v)

end RubyOutline.Json
