import RubyOutline.ConstantPath
import RubyOutline.Features

/-!
Outlines of methods, classes and whole programs. Definitions are found wherever
they stand: a class inside a method is listed, and a method inside another one
is listed by itself and adds its features to the method around it.
-/

namespace RubyOutline

namespace Place

def isComment (p : Place) : Bool := p.type == "comment"

/-- The named nodes among the children, none of them foreign, that are not comments. -/
def members (p : Place) : List Place := p.namedNodes.filter (!·.isComment)

/-- A parameter is listed by its name, one without a name by the empty text, and
a destructured one by its source. -/
def argumentName (source : ByteArray) (p : Place) : String :=
  if p.type == "identifier" || p.type == "destructured_parameter" then p.text source
  else match p.field? "name" with
    | some name => name.text source
    | none => ""

def argumentNames (source : ByteArray) (p : Place) : List String :=
  match p.field? "parameters" with
  | some parameters => parameters.members.map (argumentName source)
  | none => []

/-- The text of a field, empty when the node has no such field. -/
def fieldText (source : ByteArray) (name : String) (p : Place) : String :=
  match p.field? name with
  | some q => q.text source
  | none => ""

def methodOutline (source : ByteArray) (p : Place) : MethodOutline Token :=
  let found := findings source p
  { name := p.fieldText source "name"
    arguments := p.argumentNames source
    line := p.field? "name"
    instanceVariables := found.filterMap Finding.instanceVariable?
    localVariables := found.filterMap Finding.localVariable?
    calls := found.filterMap Finding.call?
    conditions := found.filterMap Finding.condition? }

/-- The method definitions walked from a place on. -/
def methodDefinitions (p : Place) : List Place := p.collect (·.kind == .methodDefinition)

/-- The class definitions walked from a place on. -/
def classDefinitions (p : Place) : List Place := p.collect (·.kind == .classDefinition)

def methodOutlines (source : ByteArray) (p : Place) : List (MethodOutline Token) :=
  p.methodDefinitions.map (methodOutline source)

/-- The superclass of a class, if it is written as a path of constants. -/
def superclassName? (source : ByteArray) (p : Place) : Option String := do
  let superclass ← p.field? "superclass"
  let expression ← superclass.members.head?
  expression.constantPath? source

/-- The name of a class: a path of constants where it is one, else its text. -/
def className (source : ByteArray) (p : Place) : String :=
  match (p.field? "name").bind (·.constantPath? source) with
  | some path => path
  | none => p.fieldText source "name"

def classOutline (source : ByteArray) (p : Place) : ClassOutline Token :=
  ⟨p.className source, p.superclassName? source, p.field? "name", p.methodOutlines source⟩

/-- The outline of a program, every record with its token. -/
def outline (source : ByteArray) (p : Place) : Report Token :=
  match p.classDefinitions with
  | [] => .topLevel (p.methodOutlines source)
  | classes => .classes (classes.map (classOutline source))

/-- The outline of a program, every record with its line. -/
def report (source : ByteArray) (p : Place) : Report (Option Nat) :=
  (p.outline source).map Token.line?

end Place

end RubyOutline
