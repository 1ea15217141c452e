import RubyOutline.Report
import RubyOutline.Selector
import RubyOutline.Text.Blank
import RubyOutline.Tree.Walk

/-!
What the body of a method shows: the variables it writes, the messages it sends
and the conditions it branches on. A scan walks the method once and remembers
the names bound so far, since a bare name is a call until a parameter or a
local variable of that name has been passed. The two functions `boundName?` and
`finding?` say what a single place adds, and the scan only strings them
together.
-/

namespace RubyOutline

/-- The token that locates a record. -/
abbrev Token := Option Place

def Token.line? (token : Token) : Option Nat := token.bind fun p => p.label.line?

/-- What one place contributes to a method. -/
inductive Finding (τ : Type) where
  | instanceVariable (mention : Mention τ)
  | localVariable (mention : Mention τ)
  | call (mention : Mention τ)
  | condition (condition : Condition τ)
  deriving DecidableEq, Repr

namespace Finding

variable {τ : Type}

def instanceVariable? : Finding τ → Option (Mention τ)
  | instanceVariable m => some m
  | _ => none

def localVariable? : Finding τ → Option (Mention τ)
  | localVariable m => some m
  | _ => none

def call? : Finding τ → Option (Mention τ)
  | call m => some m
  | _ => none

def condition? : Finding τ → Option (Condition τ)
  | condition c => some c
  | _ => none

end Finding

namespace Place

/-- The name that a place binds for the rest of a scan. -/
def boundName? (source : ByteArray) (p : Place) : Option String :=
  match p.kind with
  | .localWrite | .parameter => some (p.text source)
  | _ => none

/-- A condition is shown by the first line of its branch. -/
def conditionText (source : ByteArray) (p : Place) : String :=
  Text.strip (Text.firstLine (p.text source))

/-- What a place contributes when some names are bound. A call always has a
selector, by `exists_selector_of_kind_eq_call`. -/
def finding? (source : ByteArray) (bound : List String) (p : Place) : Option (Finding Token) :=
  match p.kind with
  | .instanceWrite => some (.instanceVariable ⟨p.text source, some p⟩)
  | .localWrite => some (.localVariable ⟨p.text source, some p⟩)
  | .bareName =>
    let name := p.text source
    if bound.contains name then none else some (.call ⟨name, some p⟩)
  | .call =>
    match p.selector source with
    | .ok selector => some (.call ⟨selector.name, selector.token⟩)
    | .error _ => none
  | .conditional => some (.condition ⟨p.conditionText source, some p⟩)
  | _ => none

end Place

structure Scan where
  /-- The names bound so far, each once. -/
  bound : List String
  found : Array (Finding Token)

namespace Scan

def start : Scan := ⟨[], #[]⟩

def visit (source : ByteArray) (scan : Scan) (p : Place) : Scan where
  bound := match p.boundName? source with
    | some name => scan.bound.insert name
    | none => scan.bound
  found := match p.finding? source scan.bound with
    | some finding => scan.found.push finding
    | none => scan.found

/-- Continues a scan over all that is walked from a place. -/
def cover (source : ByteArray) (scan : Scan) (p : Place) : Scan :=
  Place.foldWalk (visit source) scan p

end Scan

/-- The findings of a scan that begins with nothing bound. -/
def findings (source : ByteArray) (p : Place) : List (Finding Token) :=
  (Scan.start.cover source p).found.toList

end RubyOutline
