import RubyOutline.Tree.Basic

/-!
What a node is to an outline. The answer depends on the node's type and on its
place in its parent: the same identifier is written to, declared, a name given
to a method, or read, according to where it stands.
-/

namespace RubyOutline

inductive Kind where
  | classDefinition
  | methodDefinition
  | instanceWrite
  | localWrite
  | call
  | conditional
  | parameter
  /-- An identifier without a receiver: a local variable that is read, or a
  call when no such variable is bound. -/
  | bareName
  | other
  deriving DecidableEq, Repr

/-! ### Types that the grammar distinguishes -/

def conditionalTypes : List String :=
  ["if", "unless", "elsif", "if_modifier", "unless_modifier", "conditional"]

/-- Binary operators that send a message; the logical ones are control flow. -/
def methodOperators : List String :=
  ["+", "-", "*", "/", "%", "**", "==", "!=", "<", "<=", ">", ">=", "<=>", "===", "=~", "!~",
    "<<", ">>", "&", "|", "^"]

/-- The message that a unary operator sends. -/
def unaryMessage? : String → Option String
  | "!" => some "!"
  | "not" => some "!"
  | "~" => some "~"
  | "-" => some "-@"
  | "+" => some "+@"
  | _ => none

def numericTypes : List String := ["integer", "float", "rational", "complex"]

/-- Lists whose members are parameters. -/
def parameterListTypes : List String :=
  ["method_parameters", "block_parameters", "lambda_parameters", "destructured_parameter"]

/-- Parameters that carry their name in a field. -/
def namedParameterTypes : List String :=
  ["optional_parameter", "keyword_parameter", "splat_parameter", "hash_splat_parameter",
    "block_parameter"]

/-- Assignments, which write to their left side. -/
def assignmentTypes : List String := ["assignment", "operator_assignment"]

/-- Nodes that write to all their children. -/
def targetListTypes : List String :=
  ["left_assignment_list", "destructured_left_assignment", "rest_assignment",
    "exception_variable"]

namespace Place

/-! ### The part a node plays in its parent -/

def isTarget (p : Place) : Bool :=
  match p.parent? with
  | none => false
  | some parent =>
    if assignmentTypes.contains parent.type then p.fills "left"
    else if parent.type == "for" then p.fills "pattern"
    else targetListTypes.contains parent.type

/-- Whether a node is written to without being read first. -/
def isPlainWrite (p : Place) : Bool :=
  p.isTarget && !p.parentIsA ["operator_assignment"]

def isParameter (p : Place) : Bool :=
  match p.parent? with
  | none => false
  | some parent =>
    if parameterListTypes.contains parent.type then true
    else namedParameterTypes.contains parent.type && p.fills "name"

/-- Whether a node only names a method. -/
def isMethodName (p : Place) : Bool :=
  match p.parent? with
  | none => false
  | some parent =>
    if parent.type == "method" || parent.type == "singleton_method" then p.fills "name"
    else if parent.type == "call" then p.fills "method"
    else ["alias", "undef", "setter"].contains parent.type

/-- Whether an operator expression sends a message. A sign before a number is
part of the number. -/
def isOperatorCall (p : Place) : Bool :=
  match p.field? "operator" with
  | none => false
  | some operator =>
    if p.type == "binary" then methodOperators.contains operator.type
    else if (p.field? "operand").any fun operand => numericTypes.contains operand.type then false
    else (unaryMessage? operator.type).isSome

def identifierKind (p : Place) : Kind :=
  if p.isTarget then .localWrite
  else if p.isParameter then .parameter
  else if p.isMethodName then .other
  else .bareName

def kind (p : Place) : Kind :=
  if p.type == "class" then .classDefinition
  else if p.type == "method" then .methodDefinition
  else if p.type == "call" || p.type == "element_reference" then .call
  else if p.type == "binary" || p.type == "unary" then
    if p.isOperatorCall then .call else .other
  else if conditionalTypes.contains p.type then .conditional
  else if p.type == "instance_variable" then
    if p.isTarget then .instanceWrite else .other
  else if p.type == "identifier" then p.identifierKind
  else .other

/-! ### The kinds by type -/

theorem kind_eq_classDefinition_iff {p : Place} :
    p.kind = .classDefinition ↔ p.type = "class" := by
  grind [kind, identifierKind]

theorem kind_eq_methodDefinition_iff {p : Place} :
    p.kind = .methodDefinition ↔ p.type = "method" := by
  grind [kind, identifierKind]

theorem type_of_kind_eq_call {p : Place} (h : p.kind = .call) :
    p.type = "binary" ∨ p.type = "unary" ∨ p.type = "element_reference" ∨ p.type = "call" := by
  grind [kind, identifierKind]

theorem isOperatorCall_of_kind_eq_call {p : Place} (h : p.kind = .call)
    (ht : p.type = "binary" ∨ p.type = "unary") : p.isOperatorCall = true := by
  rcases ht with ht | ht <;> simpa [kind, ht] using h

theorem kind_of_identifier {p : Place} (h : p.type = "identifier") :
    p.kind = p.identifierKind := by
  simp [kind, h, conditionalTypes]

theorem type_of_kind_eq_bareName {p : Place} (h : p.kind = .bareName) :
    p.type = "identifier" := by
  revert h
  fun_cases kind p <;> simp_all

theorem kind_eq_bareName_iff {p : Place} :
    p.kind = .bareName ↔ p.type = "identifier" ∧ p.isTarget = false ∧ p.isParameter = false ∧
      p.isMethodName = false := by
  constructor
  · intro h
    have ht := type_of_kind_eq_bareName h
    rw [kind_of_identifier ht] at h
    grind [identifierKind]
  · rintro ⟨ht, hw, hp, hm⟩
    simp [kind_of_identifier ht, identifierKind, hw, hp, hm]

end Place

end RubyOutline
