import RubyOutline.Kind
import RubyOutline.Source
import RubyOutline.Text.Blank
import RubyOutline.Tree.Walk

/-!
The gate that keeps trees of broken sources out. A parser recovers from errors
and always gives a tree; what it could not read shows as nodes of type `ERROR`
or as missing nodes, and the nodes above are marked as damaged. It takes an
unbalanced `end` for an identifier without any mark, so a tree that is not
damaged is searched for identifiers that are spelled like clause keywords.
-/

namespace RubyOutline

inductive SyntaxFault where
  /-- No offending node is known. -/
  | somewhere
  /-- The text lacks a token. -/
  | missing (type : String) (line column : Int)
  /-- A piece of text that has no place where it stands. -/
  | unexpected (snippet : String) (line column : Int)
  /-- The same, with nothing in it that could be shown. -/
  | unexpectedBlank (line column : Int)
  deriving DecidableEq, Repr

namespace SyntaxFault

def line? : SyntaxFault → Option Int
  | somewhere => none
  | missing _ line _ | unexpected _ line _ | unexpectedBlank line _ => some line

def column? : SyntaxFault → Option Int
  | somewhere => none
  | missing _ _ column | unexpected _ _ column | unexpectedBlank _ column => some column

def placeText (line column : Int) : String := s!"at line {line}, column {column}"

def message : SyntaxFault → String
  | somewhere => "syntax error"
  | missing type line column => s!"syntax error, missing '{type}' {placeText line column}"
  | unexpected snippet line column =>
    s!"syntax error, unexpected '{snippet}' {placeText line column}"
  | unexpectedBlank line column => s!"syntax error {placeText line column}"

end SyntaxFault

/-- Keywords that only close or continue a construct. -/
def clauseKeywords : List String :=
  ["end", "else", "elsif", "when", "in", "rescue", "ensure", "then", "do"]

namespace Place

/-- Whether a node itself shows a syntax error. -/
def isError (p : Place) : Bool := p.type == "ERROR" || p.label.missing

/-- The first error at or below the places of an agenda. Nothing is looked for
below a node that is not damaged. All children count as nodes here: the search is
for trees without foreign ones. -/
def firstErrorIn : List Place → Option Place
  | [] => none
  | p :: agenda =>
    if p.isError then some p
    else if p.label.damaged then firstErrorIn (p.nodes ++ agenda)
    else firstErrorIn agenda
termination_by agenda => sizeAll agenda
decreasing_by
  · have := sizeAll_nodes p
    simp only [sizeAll_append, sizeAll_cons]
    omega
  · have := size_pos p
    simp only [sizeAll_cons]
    omega

/-- The first error at or below a place, tokens included. -/
def firstError (p : Place) : Option Place := firstErrorIn [p]

/-- Whether an identifier is spelled like a keyword where no name of that
spelling can stand. -/
def isStrayKeyword (source : ByteArray) (p : Place) : Bool :=
  p.type == "identifier" && !(p.isMethodName || p.isParameter) &&
    clauseKeywords.contains (p.text source)

/-- The first stray keyword walked from a place on. -/
def firstStrayKeyword (source : ByteArray) (p : Place) : Option Place :=
  p.foldWalk (fun found q => found.or (if q.isStrayKeyword source then some q else none)) none

/-- The text that is quoted from an offending node. -/
def snippet (source : ByteArray) (p : Place) : String :=
  Text.strip (Text.firstLine (Text.strip (p.text source)))

/-- What is reported about an offending node. A report states a line and a column, so this is
for nodes that state theirs, as a parser's nodes do; of any other nothing is said. -/
def fault (source : ByteArray) (p : Place) : SyntaxFault :=
  match p.label.position? with
  | none => .somewhere
  | some (line, column) =>
    if p.label.missing then .missing p.type line column
    else
      let snippet := p.snippet source
      if snippet.isEmpty then .unexpectedBlank line column
      else .unexpected snippet line column

/-- The node that a tree is refused for, if one is found. -/
def offender (source : ByteArray) (p : Place) : Option Place :=
  if p.label.damaged then p.firstError else p.firstStrayKeyword source

/-- What is reported about an offending node that may be unknown. -/
def faultOf (source : ByteArray) : Option Place → SyntaxFault
  | none => .somewhere
  | some p => p.fault source

/-- Passes the tree of a sound source and refuses any other. -/
def syntaxGate (source : ByteArray) (p : Place) : Except SyntaxFault Unit :=
  let found := p.offender source
  if p.label.damaged || found.isSome then .error (faultOf source found) else .ok ()

end Place

end RubyOutline
