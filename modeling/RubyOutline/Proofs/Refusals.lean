import RubyOutline.Outline

/-!
What a node is, told by reads that may be refused. A node need not answer what it is asked: it may
be sealed, or state no position. Whoever asks for a child by its field or for a line expects some
refusals and takes them for an empty answer, and any other goes through to the callers. The functions
that say what a node is, what a call sends and how a path of constants is written are made once more
of such reads. None of them is refused an answer in the end, and the only failure there is left is a
message that cannot be told.
-/

namespace RubyOutline

/-- Why a node does not answer. -/
inductive Refusal where
  /-- It does not tell its children by their fields. -/
  | isSealed
  | noPosition
  /-- A position is stated, but there is nothing in it. -/
  | emptyPosition
  deriving DecidableEq, Repr

/-- The row that a node states. -/
def Label.askRow (label : Label) : Except Refusal Coordinate :=
  match label.start with
  | none => .error .noPosition
  | some [] => .error .emptyPosition
  | some (row :: _) => .ok row

/-- The line of a row, where it is one. -/
def Coordinate.line? : Coordinate → Option Nat
  | whole row => if 0 ≤ row then some (row.toNat + 1) else none
  | other => none

/-- The first child that plays a part, of a node that can be asked for it. -/
def Place.askField (p : Place) (name : String) : Except Refusal (Option Place) :=
  if p.label.sealed then .error .isSealed
  else .ok (p.nodes.find? (·.label.field == some name))

theorem Label.line?_eq_askRow (label : Label) :
    label.line? = label.askRow.toOption.bind Coordinate.line? := by
  unfold Label.line? Label.askRow
  rcases label.start with _ | ⟨_ | ⟨row | _, rest⟩⟩ <;> rfl

theorem Place.field?_eq_askField (p : Place) (name : String) :
    p.field? name = (p.askField name).toOption.join := by
  unfold Place.field? Place.askField
  split <;> rfl

namespace Strict

open Place

/-- What may keep an answer from being given. -/
inductive Failure where
  /-- A refusal that nobody expected. -/
  | refused (refusal : Refusal)
  | untold (cause : SelectorError)
  deriving DecidableEq, Repr

abbrev Answer := Except Failure

/-! ### Reads -/

/-- The child that plays a part, none if the node is sealed. -/
def childField (p : Place) (name : String) : Answer (Option Place) :=
  match p.askField name with
  | .ok child => .ok child
  | .error .isSealed => .ok none
  | .error refusal => .error (.refused refusal)

/-- The line of a node, none if it states no position or an empty one. -/
def lineOf (label : Label) : Answer (Option Nat) :=
  match label.askRow with
  | .ok row => .ok row.line?
  | .error .noPosition | .error .emptyPosition => .ok none
  | .error refusal => .error (.refused refusal)

@[simp] theorem childField_eq_ok (p : Place) (name : String) :
    childField p name = .ok (p.field? name) := by
  unfold childField Place.askField Place.field?
  cases p.label.sealed <;> rfl

@[simp] theorem lineOf_eq_ok (label : Label) : lineOf label = .ok label.line? := by
  unfold lineOf Label.askRow Label.line?
  rcases label.start with _ | ⟨_ | ⟨row | _, rest⟩⟩ <;> rfl

/-! ### The part a node plays in its parent -/

def fills (p : Place) (name : String) : Answer Bool :=
  match p.parent? with
  | none => .ok false
  | some parent => do
    match ← childField parent name with
    | none => return false
    | some q => return q.index? == p.index?

def isTarget (p : Place) : Answer Bool :=
  match p.parent? with
  | none => .ok false
  | some parent =>
    if assignmentTypes.contains parent.type then fills p "left"
    else if parent.type == "for" then fills p "pattern"
    else .ok (targetListTypes.contains parent.type)

def isPlainWrite (p : Place) : Answer Bool := do
  return (← isTarget p) && !p.parentIsA ["operator_assignment"]

def isParameter (p : Place) : Answer Bool :=
  match p.parent? with
  | none => .ok false
  | some parent =>
    if parameterListTypes.contains parent.type then .ok true
    else if namedParameterTypes.contains parent.type then fills p "name"
    else .ok false

def isMethodName (p : Place) : Answer Bool :=
  match p.parent? with
  | none => .ok false
  | some parent =>
    if parent.type == "method" || parent.type == "singleton_method" then fills p "name"
    else if parent.type == "call" then fills p "method"
    else .ok (["alias", "undef", "setter"].contains parent.type)

@[simp] theorem fills_eq_ok (p : Place) (name : String) : fills p name = .ok (p.fills name) := by
  unfold fills Place.fills
  cases p.parent? with
  | none => rfl
  | some parent =>
    simp only [childField_eq_ok]
    cases hchild : parent.field? name <;> rfl

@[simp] theorem isTarget_eq_ok (p : Place) : isTarget p = .ok p.isTarget := by
  unfold isTarget Place.isTarget
  cases p.parent? with
  | none => rfl
  | some parent =>
    simp only [fills_eq_ok]
    split
    · rfl
    · split <;> rfl

@[simp] theorem isPlainWrite_eq_ok (p : Place) : isPlainWrite p = .ok p.isPlainWrite := by
  rw [isPlainWrite, isTarget_eq_ok]
  rfl

@[simp] theorem isParameter_eq_ok (p : Place) : isParameter p = .ok p.isParameter := by
  unfold isParameter Place.isParameter
  cases p.parent? with
  | none => rfl
  | some parent =>
    simp only [fills_eq_ok]
    split
    · rfl
    · cases namedParameterTypes.contains parent.type <;> rfl

@[simp] theorem isMethodName_eq_ok (p : Place) : isMethodName p = .ok p.isMethodName := by
  unfold isMethodName Place.isMethodName
  cases p.parent? with
  | none => rfl
  | some parent =>
    simp only [fills_eq_ok]
    split
    · rfl
    · split <;> rfl

/-! ### Kinds -/

def isOperatorCall (p : Place) : Answer Bool := do
  match ← childField p "operator" with
  | none => return false
  | some operator =>
    if p.type == "binary" then return methodOperators.contains operator.type
    else if (← childField p "operand").any fun operand => numericTypes.contains operand.type then
      return false
    else return (unaryMessage? operator.type).isSome

def identifierKind (p : Place) : Answer Kind := do
  if ← isTarget p then return .localWrite
  else if ← isParameter p then return .parameter
  else if ← isMethodName p then return .other
  else return .bareName

def kind (p : Place) : Answer Kind :=
  if p.type == "class" then .ok .classDefinition
  else if p.type == "method" then .ok .methodDefinition
  else if p.type == "call" || p.type == "element_reference" then .ok .call
  else if p.type == "binary" || p.type == "unary" then do
    if ← isOperatorCall p then return .call else return .other
  else if conditionalTypes.contains p.type then .ok .conditional
  else if p.type == "instance_variable" then do
    if ← isTarget p then return .instanceWrite else return .other
  else if p.type == "identifier" then identifierKind p
  else .ok .other

@[simp] theorem isOperatorCall_eq_ok (p : Place) : isOperatorCall p = .ok p.isOperatorCall := by
  unfold isOperatorCall Place.isOperatorCall
  simp only [childField_eq_ok]
  cases p.field? "operator" with
  | none => rfl
  | some operator =>
    dsimp only [Bind.bind, Except.bind]
    split
    · rfl
    · split <;> rfl

@[simp] theorem identifierKind_eq_ok (p : Place) : identifierKind p = .ok p.identifierKind := by
  unfold identifierKind Place.identifierKind
  simp only [isTarget_eq_ok, isParameter_eq_ok, isMethodName_eq_ok]
  cases p.isTarget with
  | true => rfl
  | false => cases p.isParameter <;> cases p.isMethodName <;> rfl

@[simp] theorem kind_eq_ok (p : Place) : kind p = .ok p.kind := by
  unfold kind Place.kind
  simp only [isOperatorCall_eq_ok, isTarget_eq_ok, identifierKind_eq_ok]
  simp only [apply_ite Except.ok]
  rfl

/-! ### Messages -/

def writeSuffix (p : Place) : Answer String := do
  return if ← isPlainWrite p then "=" else ""

def binarySelector (p : Place) : Answer Selector := do
  match ← childField p "operator" with
  | none => .error (.untold .noOperator)
  | some operator => return ⟨operator.type, some operator⟩

def unarySelector (p : Place) : Answer Selector := do
  match ← childField p "operator" with
  | none => .error (.untold .noOperator)
  | some operator =>
    match unaryMessage? operator.type with
    | none => .error (.untold (.unknownOperator operator.type))
    | some message => return ⟨message, some operator⟩

def indexSelector (p : Place) : Answer Selector := do
  return ⟨"[]" ++ (← writeSuffix p), p.nodes.find? (·.type == "[")⟩

def callSelector (p : Place) (source : ByteArray) : Answer Selector := do
  let suffix ← writeSuffix p
  match ← childField p "method" with
  | none => return ⟨implicitMessage, none⟩
  | some name => return ⟨name.text source ++ suffix, some name⟩

/-- The message a node sends. It cannot be told of an operator expression without an operator, or
with one that sends nothing. -/
def selector (p : Place) (source : ByteArray) : Answer Selector :=
  if p.type == "binary" then binarySelector p
  else if p.type == "unary" then unarySelector p
  else if p.type == "element_reference" then indexSelector p
  else callSelector p source

@[simp] theorem writeSuffix_eq_ok (p : Place) : writeSuffix p = .ok p.writeSuffix := by
  rw [writeSuffix, isPlainWrite_eq_ok]
  rfl

theorem binarySelector_eq (p : Place) : binarySelector p = p.binarySelector.mapError .untold := by
  unfold binarySelector Place.binarySelector
  rw [childField_eq_ok]
  cases p.field? "operator" <;> rfl

theorem unarySelector_eq (p : Place) : unarySelector p = p.unarySelector.mapError .untold := by
  unfold unarySelector Place.unarySelector
  rw [childField_eq_ok]
  cases p.field? "operator" with
  | none => rfl
  | some operator =>
    dsimp only [Bind.bind, Except.bind]
    cases unaryMessage? operator.type <;> rfl

theorem indexSelector_eq_ok (p : Place) : indexSelector p = .ok p.indexSelector := by
  rw [indexSelector, writeSuffix_eq_ok]
  rfl

theorem callSelector_eq_ok (p : Place) (source : ByteArray) :
    callSelector p source = .ok (p.callSelector source) := by
  unfold callSelector Place.callSelector
  rw [writeSuffix_eq_ok, childField_eq_ok]
  cases p.field? "method" <;> rfl

/-- A selector is not given just where the message cannot be told. -/
theorem selector_eq (p : Place) (source : ByteArray) :
    selector p source = (p.selector source).mapError .untold := by
  unfold selector Place.selector
  rw [binarySelector_eq, unarySelector_eq, indexSelector_eq_ok, callSelector_eq_ok]
  simp only [apply_ite (Except.mapError Failure.untold)]
  rfl

/-! ### Paths of constants -/

def lastSegment (p : Place) (source : ByteArray) : Answer String := do
  match ← childField p "name" with
  | none => return ""
  | some name => return name.text source

def segments (p : Place) (source : ByteArray) : Answer (List String) :=
  if p.isScopeResolution then
    match h : childField p "scope" with
    | .error failure => .error failure
    | .ok none => do return ["", ← lastSegment p source]
    | .ok (some scope) => do
      have := size_lt_of_field? (Except.ok.inj ((childField_eq_ok p "scope").symm.trans h))
      return (← segments scope source) ++ [← lastSegment p source]
  else .ok [p.text source]
termination_by p.size

def constantPath? (p : Place) (source : ByteArray) : Answer (Option String) :=
  if p.type == "constant" || p.isScopeResolution then do
    return some ("::".intercalate (← segments p source))
  else .ok none

@[simp] theorem lastSegment_eq_ok (p : Place) (source : ByteArray) :
    lastSegment p source = .ok (p.lastSegment source) := by
  unfold lastSegment Place.lastSegment
  rw [childField_eq_ok]
  cases p.field? "name" <;> rfl

theorem segments_of_isScopeResolution {p : Place} {source : ByteArray}
    (hs : p.isScopeResolution = true) :
    segments p source = match p.field? "scope" with
      | none => .ok ["", p.lastSegment source]
      | some scope => (segments scope source).map (· ++ [p.lastSegment source]) := by
  have hfield {scope : Option Place} (h : childField p "scope" = .ok scope) :
      p.field? "scope" = scope := Except.ok.inj ((childField_eq_ok p "scope").symm.trans h)
  rw [segments, if_pos hs]
  split
  · next failure h => cases (childField_eq_ok p "scope").symm.trans h
  · next h =>
    rw [hfield h, lastSegment_eq_ok]
    rfl
  · next scope h =>
    rw [hfield h, lastSegment_eq_ok]
    show _ = (segments scope source).map _
    cases segments scope source <;> rfl

@[simp] theorem segments_eq_ok (p : Place) (source : ByteArray) :
    segments p source = .ok (p.segments source) := by
  fun_induction Place.segments p source with
  | case1 p hs hscope => rw [segments_of_isScopeResolution hs, hscope]
  | case2 p hs scope hscope _ ih =>
    rw [segments_of_isScopeResolution hs, hscope]
    show (segments scope source).map _ = _
    rw [ih]
    rfl
  | case3 p hs => rw [segments, if_neg hs]

@[simp] theorem constantPath?_eq_ok (p : Place) (source : ByteArray) :
    constantPath? p source = .ok (p.constantPath? source) := by
  unfold constantPath? Place.constantPath?
  rw [segments_eq_ok]
  split <;> rfl

end Strict

end RubyOutline
