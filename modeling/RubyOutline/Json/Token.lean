import RubyOutline.Json.Basic
import RubyOutline.Text.CodePoint

/-!
The tokens of a JSON text. A token remembers the text from its first code point
on, so an error can say how far into the document it lies. Reading stops at the
first code point that begins no token and at a text in quotes that is broken; a
fault there counts only where a token of that kind is looked for.
-/

namespace RubyOutline.Json

open Text (CodePoint WideText)

def isBlank : CodePoint → Bool
  | .scalar c => c = ' ' || c = '\t' || c = '\n' || c = '\r'
  | .surrogate _ => false

def hexValue? : CodePoint → Option Nat
  | .surrogate _ => none
  | .scalar c =>
    let n := c.toNat
    if 0x30 ≤ n && n ≤ 0x39 then some (n - 0x30)
    else if 0x61 ≤ n && n ≤ 0x66 then some (n - 0x61 + 10)
    else if 0x41 ≤ n && n ≤ 0x46 then some (n - 0x41 + 10)
    else none

def hexFour? (a b c d : CodePoint) : Option Nat := do
  return (((← hexValue? a) * 16 + (← hexValue? b)) * 16 + (← hexValue? c)) * 16 + (← hexValue? d)

/-- What a letter after a backslash stands for. -/
def escaped? : CodePoint → Option Char
  | .scalar '"' => some '"'
  | .scalar '\\' => some '\\'
  | .scalar '/' => some '/'
  | .scalar 'b' => some '\x08'
  | .scalar 'f' => some '\x0c'
  | .scalar 'n' => some '\n'
  | .scalar 'r' => some '\r'
  | .scalar 't' => some '\t'
  | _ => none

inductive QuoteFault where
  | unterminated
  /-- The fault lies where the given rest of the document begins. -/
  | before (rest : WideText)
  deriving DecidableEq, Repr

/-- The text up to its closing quote, and what follows the quote. -/
abbrev QuotedText := Except QuoteFault (WideText × WideText)

def prepend (c : CodePoint) : QuotedText → QuotedText
  | .ok (text, rest) => .ok (c :: text, rest)
  | .error fault => .error fault

/-- Reads a text in quotes from behind its opening quote. A number escape must be
followed by something, and two of them make one character when they name a high
and a low surrogate. -/
def readQuoted : WideText → QuotedText
  | [] => .error .unterminated
  | .scalar '"' :: rest => .ok ([], rest)
  | .scalar '\\' :: .scalar 'u' :: a :: b :: c :: d :: .scalar '\\' :: .scalar 'u' ::
      e :: f :: g :: h :: i :: rest =>
    match hexFour? a b c d with
    | none => .error (.before (.scalar 'u' :: a :: b :: c :: d :: .scalar '\\' :: .scalar 'u' ::
        e :: f :: g :: h :: i :: rest))
    | some high =>
      if Text.isHighSurrogate high then
        match hexFour? e f g h with
        | none => .error (.before (.scalar 'u' :: e :: f :: g :: h :: i :: rest))
        | some low =>
          if Text.isLowSurrogate low then
            prepend (Text.joinSurrogates high low) (readQuoted (i :: rest))
          else
            prepend ((CodePoint.ofNat? high).getD (.scalar '\uFFFD'))
              (readQuoted (.scalar '\\' :: .scalar 'u' :: e :: f :: g :: h :: i :: rest))
      else
        prepend ((CodePoint.ofNat? high).getD (.scalar '\uFFFD'))
          (readQuoted (.scalar '\\' :: .scalar 'u' :: e :: f :: g :: h :: i :: rest))
  | .scalar '\\' :: .scalar 'u' :: a :: b :: c :: d :: e :: rest =>
    match hexFour? a b c d with
    | none => .error (.before (.scalar 'u' :: a :: b :: c :: d :: e :: rest))
    | some n => prepend ((CodePoint.ofNat? n).getD (.scalar '\uFFFD')) (readQuoted (e :: rest))
  | .scalar '\\' :: .scalar 'u' :: rest => .error (.before (.scalar 'u' :: rest))
  | [.scalar '\\'] => .error .unterminated
  | .scalar '\\' :: c :: rest =>
    match escaped? c with
    | none => .error (.before (.scalar '\\' :: c :: rest))
    | some e => prepend (.scalar e) (readQuoted rest)
  | c :: rest =>
    if c.value < 0x20 then .error (.before (c :: rest)) else prepend c (readQuoted rest)

/-! ### Numbers and words -/

def isDigit (c : CodePoint) : Bool := 0x30 ≤ c.value && c.value ≤ 0x39

/-- The characters of code points that are known to be characters. -/
def literal (t : WideText) : String :=
  String.ofList (t.filterMap fun c => match c with
    | .scalar c => some c
    | .surrogate _ => none)

/-- The whole part of a number: a zero, or digits that do not begin with one. -/
def wholePart (t : WideText) : WideText :=
  match t with
  | .scalar '0' :: _ => [.scalar '0']
  | _ => t.takeWhile isDigit

/-- The fraction at the front of a text; a point that no digit follows is none. -/
def fractionPart : WideText → WideText
  | .scalar '.' :: rest =>
    let ds := rest.takeWhile isDigit
    if ds.isEmpty then [] else .scalar '.' :: ds
  | _ => []

def signPart : WideText → WideText
  | .scalar '-' :: _ => [.scalar '-']
  | .scalar '+' :: _ => [.scalar '+']
  | _ => []

/-- The exponent at the front of a text; without digits it is none. -/
def exponentPart : WideText → WideText
  | c :: rest =>
    if c = .scalar 'e' || c = .scalar 'E' then
      let sign := signPart rest
      let ds := (rest.drop sign.length).takeWhile isDigit
      if ds.isEmpty then [] else c :: (sign ++ ds)
    else []
  | [] => []

inductive Lexeme where
  | openArray
  | closeArray
  | openObject
  | closeObject
  | colon
  | comma
  | quoted (text : WideText)
  | brokenQuote (fault : QuoteFault)
  | atom (value : Json WideText)
  | integer (value : Int) (digits : Nat)
  | unreadable
  | finish

def naturalOf (ds : WideText) : Nat := ds.foldl (fun n d => n * 10 + (d.value - 0x30)) 0

/-- The number at the front of a text and how long it is, `none` if there is none. -/
def readNumber (t : WideText) : Option (Lexeme × Nat) :=
  let negative := t.head? = some (.scalar '-')
  let signLength := if negative then 1 else 0
  let whole := wholePart (t.drop signLength)
  let afterWhole := t.drop (signLength + whole.length)
  let fraction := fractionPart afterWhole
  let exponent := exponentPart (afterWhole.drop fraction.length)
  let length := signLength + whole.length + fraction.length + exponent.length
  if whole.isEmpty then none
  else if !(fraction.isEmpty && exponent.isEmpty) then
    some (.atom (.real (literal (t.take length))), length)
  else
    let n := Int.ofNat (naturalOf whole)
    some (.integer (if negative then -n else n) whole.length, length)

def words : List (String × Json WideText) :=
  [("null", .null), ("true", .bool true), ("false", .bool false), ("NaN", .real "NaN"),
    ("Infinity", .real "Infinity"), ("-Infinity", .real "-Infinity")]

/-- The word at the front of a text and how long it is. -/
def readWord (t : WideText) : Option (Lexeme × Nat) :=
  (words.find? fun (word, _) => (Text.wide word).isPrefixOf t).map fun (word, v) =>
    (.atom v, word.length)

/-- The token that a code point begins, and the text behind it. -/
def readLexeme (c : CodePoint) (rest : WideText) : Lexeme × WideText :=
  match c with
  | .scalar '[' => (.openArray, rest)
  | .scalar ']' => (.closeArray, rest)
  | .scalar '{' => (.openObject, rest)
  | .scalar '}' => (.closeObject, rest)
  | .scalar ':' => (.colon, rest)
  | .scalar ',' => (.comma, rest)
  | .scalar '"' =>
    match readQuoted rest with
    | .ok (text, rest) => (.quoted text, rest)
    | .error fault => (.brokenQuote fault, [])
  | _ =>
    match (readWord (c :: rest)).or (readNumber (c :: rest)) with
    | some (lexeme, length) => (lexeme, rest.drop (length - 1))
    | none => (.unreadable, [])

theorem readQuoted_length (t : WideText) {text rest : WideText}
    (h : readQuoted t = .ok (text, rest)) : rest.length ≤ t.length := by
  fun_induction readQuoted t generalizing text rest <;>
    (try simp only [prepend, List.length_cons] at *) <;> grind

theorem readLexeme_length (c : CodePoint) (rest : WideText) :
    (readLexeme c rest).2.length ≤ rest.length := by
  unfold readLexeme
  split <;> try simp
  · split
    · next h => exact readQuoted_length _ h
    · simp
  · split <;> simp

/-- A token and the document from it on. -/
structure Token where
  lexeme : Lexeme
  rest : WideText

def tokens (t : WideText) : List Token :=
  match h : t.dropWhile isBlank with
  | [] => [⟨.finish, []⟩]
  | c :: rest =>
    have : rest.length < t.length := by
      have := (List.dropWhile_suffix isBlank (l := t)).length_le
      simp only [h, List.length_cons] at this
      omega
    have := readLexeme_length c rest
    ⟨(readLexeme c rest).1, c :: rest⟩ ::
      match (readLexeme c rest).1 with
      | .brokenQuote _ | .unreadable => []
      | _ => tokens (readLexeme c rest).2
termination_by t.length

end RubyOutline.Json
