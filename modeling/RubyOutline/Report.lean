/-!
Outlines of programs. Every record says where it stands, and the types leave
open what that is: while an outline is made it is the token that locates the
record, and in the report it is a line. So a report is an outline in which
only locations have been replaced.
-/

namespace RubyOutline

structure Mention (τ : Type) where
  name : String
  line : τ
  deriving DecidableEq, Repr

structure Condition (τ : Type) where
  text : String
  line : τ
  deriving DecidableEq, Repr

structure MethodOutline (τ : Type) where
  name : String
  arguments : List String
  line : τ
  instanceVariables : List (Mention τ)
  localVariables : List (Mention τ)
  calls : List (Mention τ)
  conditions : List (Condition τ)
  deriving DecidableEq, Repr

structure ClassOutline (τ : Type) where
  name : String
  superclass : Option String
  line : τ
  methods : List (MethodOutline τ)
  deriving DecidableEq, Repr

/-- A program with classes is reported by its classes, any other by its
methods. -/
inductive Report (τ : Type) where
  | classes (classes : List (ClassOutline τ))
  | topLevel (methods : List (MethodOutline τ))
  deriving DecidableEq, Repr

/-! ### Replacing locations -/

variable {σ τ : Type}

def Mention.map (f : σ → τ) (m : Mention σ) : Mention τ := ⟨m.name, f m.line⟩

def Condition.map (f : σ → τ) (c : Condition σ) : Condition τ := ⟨c.text, f c.line⟩

def MethodOutline.map (f : σ → τ) (m : MethodOutline σ) : MethodOutline τ where
  name := m.name
  arguments := m.arguments
  line := f m.line
  instanceVariables := m.instanceVariables.map (·.map f)
  localVariables := m.localVariables.map (·.map f)
  calls := m.calls.map (·.map f)
  conditions := m.conditions.map (·.map f)

def ClassOutline.map (f : σ → τ) (c : ClassOutline σ) : ClassOutline τ :=
  ⟨c.name, c.superclass, f c.line, c.methods.map (·.map f)⟩

def Report.map (f : σ → τ) : Report σ → Report τ
  | .classes cs => .classes (cs.map (·.map f))
  | .topLevel ms => .topLevel (ms.map (·.map f))

end RubyOutline
