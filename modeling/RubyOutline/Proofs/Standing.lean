import RubyOutline.Kind

/-!
What kinds depend on. The kind of a node is told from its type, the type of its parent, the
fields of the parent that it fills, and the types of what it holds in its own fields. So
nodes that agree in these are of one kind, in whatever trees they stand.
-/

namespace RubyOutline.Place

def parentType? (p : Place) : Option String := p.parent?.map type

def fieldType? (p : Place) (name : String) : Option String := (p.field? name).map type

/-! ### The part a node plays, by the type of its parent -/

theorem parentIsA_eq (p : Place) (types : List String) :
    p.parentIsA types = p.parentType?.any types.contains := by
  unfold parentIsA parentType?
  cases p.parent? <;> rfl

theorem isTarget_eq (p : Place) :
    p.isTarget = p.parentType?.any fun parent =>
      if assignmentTypes.contains parent then p.fills "left"
      else if parent == "for" then p.fills "pattern"
      else targetListTypes.contains parent := by
  unfold isTarget parentType?
  cases p.parent? <;> rfl

theorem isParameter_eq (p : Place) :
    p.isParameter = p.parentType?.any fun parent =>
      if parameterListTypes.contains parent then true
      else namedParameterTypes.contains parent && p.fills "name" := by
  unfold isParameter parentType?
  cases p.parent? <;> rfl

theorem isMethodName_eq (p : Place) :
    p.isMethodName = p.parentType?.any fun parent =>
      if parent == "method" || parent == "singleton_method" then p.fills "name"
      else if parent == "call" then p.fills "method"
      else ["alias", "undef", "setter"].contains parent := by
  unfold isMethodName parentType?
  cases p.parent? <;> rfl

theorem isOperatorCall_eq (p : Place) :
    p.isOperatorCall = (p.fieldType? "operator").any fun operator =>
      if p.type == "binary" then methodOperators.contains operator
      else if (p.fieldType? "operand").any numericTypes.contains then false
      else (unaryMessage? operator).isSome := by
  unfold isOperatorCall fieldType?
  cases p.field? "operator" with
  | none => rfl
  | some operator => cases p.field? "operand" <;> rfl

/-! ### Nodes that stand alike -/

/-- Two nodes agree in all that their kinds depend on. -/
structure StandsLike (p q : Place) : Prop where
  type : p.type = q.type
  parentType : p.parentType? = q.parentType?
  fills : ∀ name, p.fills name = q.fills name
  fieldType : ∀ name, p.fieldType? name = q.fieldType? name

namespace StandsLike

variable {p q : Place} (h : StandsLike p q)

include h

theorem isTarget_eq : p.isTarget = q.isTarget := by
  simp only [Place.isTarget_eq, h.parentType, h.fills]

theorem isPlainWrite_eq : p.isPlainWrite = q.isPlainWrite := by
  simp only [isPlainWrite, h.isTarget_eq, parentIsA_eq, h.parentType]

theorem kind_eq : p.kind = q.kind := by
  simp only [kind, identifierKind, h.isTarget_eq, isParameter_eq, isMethodName_eq,
    isOperatorCall_eq, h.type, h.parentType, h.fills, h.fieldType]

end StandsLike

end RubyOutline.Place
