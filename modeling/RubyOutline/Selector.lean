import RubyOutline.Kind
import RubyOutline.Source

/-!
The message a call sends and the token that locates it. Operators send
themselves, signs send their unary forms, an index sends `[]`, and writing
through a call or an index sends the form that ends in an equals sign.
-/

namespace RubyOutline

structure Selector where
  name : String
  token : Option Place

/-- Why an operator expression has no selector. -/
inductive SelectorError where
  | noOperator
  | unknownOperator (operator : String)
  deriving DecidableEq, Repr

/-- What `callable.()` sends. -/
def implicitMessage : String := "call"

namespace Place

/-- The equals sign at the end of a message that writes. -/
def writeSuffix (p : Place) : String := if p.isPlainWrite then "=" else ""

def binarySelector (p : Place) : Except SelectorError Selector :=
  match p.field? "operator" with
  | none => .error .noOperator
  | some operator => .ok ⟨operator.type, some operator⟩

def unarySelector (p : Place) : Except SelectorError Selector :=
  match p.field? "operator" with
  | none => .error .noOperator
  | some operator =>
    match unaryMessage? operator.type with
    | none => .error (.unknownOperator operator.type)
    | some message => .ok ⟨message, some operator⟩

/-- An index is located by its opening bracket, searched for among all children, none
of them foreign. -/
def indexSelector (p : Place) : Selector :=
  ⟨"[]" ++ p.writeSuffix, p.nodes.find? (·.type == "[")⟩

def callSelector (p : Place) (source : ByteArray) : Selector :=
  match p.field? "method" with
  | none => ⟨implicitMessage, none⟩
  | some name => ⟨name.text source ++ p.writeSuffix, some name⟩

/-- The message a node sends, if it is a call at all. -/
def selector (p : Place) (source : ByteArray) : Except SelectorError Selector :=
  if p.type == "binary" then p.binarySelector
  else if p.type == "unary" then p.unarySelector
  else if p.type == "element_reference" then .ok p.indexSelector
  else .ok (p.callSelector source)

/-- Every node of kind call has a selector. -/
theorem exists_selector_of_kind_eq_call {p : Place} (h : p.kind = .call) (source : ByteArray) :
    ∃ s, p.selector source = .ok s := by
  unfold selector
  split
  · next hb =>
    have ht : p.type = "binary" := by simpa using hb
    have ho := isOperatorCall_of_kind_eq_call h (.inl ht)
    unfold binarySelector
    cases hop : p.field? "operator" with
    | none => simp [isOperatorCall, hop] at ho
    | some operator => exact ⟨_, rfl⟩
  · split
    · next hu =>
      have ht : p.type = "unary" := by simpa using hu
      have ho := isOperatorCall_of_kind_eq_call h (.inr ht)
      unfold unarySelector
      cases hop : p.field? "operator" with
      | none => simp [isOperatorCall, hop] at ho
      | some operator =>
        cases hm : unaryMessage? operator.type with
        | none =>
          simp [isOperatorCall, hop, ht, hm] at ho
        | some message => exact ⟨_, by simp [hm]; rfl⟩
    · split <;> exact ⟨_, rfl⟩

/-! ### What a call sends -/

/-- The message that an operator sends in an expression. -/
inductive OperatorMessage (p operator : Place) : String → Prop
  | binary (type : p.type = "binary") (sent : operator.type ∈ methodOperators) :
    OperatorMessage p operator operator.type
  | unary {message : String} (type : p.type = "unary")
      (sent : unaryMessage? operator.type = some message) : OperatorMessage p operator message

/-- The selectors that calls have, by the form of the call. -/
inductive SelectorForm (source : ByteArray) (p : Place) : Selector → Prop
  | operator (operator : Place) (message : String) (token : p.field? "operator" = some operator)
      (sent : OperatorMessage p operator message) : SelectorForm source p ⟨message, some operator⟩
  | index (type : p.type = "element_reference") :
    SelectorForm source p ⟨"[]" ++ p.writeSuffix, p.nodes.find? (·.type == "[")⟩
  | implicit (type : p.type = "call") (token : p.field? "method" = none) :
    SelectorForm source p ⟨implicitMessage, none⟩
  | named (name : Place) (type : p.type = "call") (token : p.field? "method" = some name) :
    SelectorForm source p ⟨name.text source ++ p.writeSuffix, some name⟩

theorem OperatorMessage.type_ne_identifier {p operator : Place} {message : String}
    (h : OperatorMessage p operator message) : operator.type ≠ "identifier" := by
  intro ht
  cases h with
  | binary _ sent => simp [ht, methodOperators] at sent
  | unary _ sent => simp [ht, unaryMessage?] at sent

theorem selectorForm_of_binarySelector {p : Place} {source : ByteArray} {s : Selector}
    (type : p.type = "binary") (hop : p.isOperatorCall = true) (h : p.binarySelector = .ok s) :
    SelectorForm source p s := by
  unfold binarySelector at h
  cases hf : p.field? "operator" with
  | none => simp [hf] at h
  | some operator =>
    simp only [hf, Except.ok.injEq] at h
    subst h
    simp only [isOperatorCall, hf, type, beq_self_eq_true, if_true, List.contains_iff_mem] at hop
    exact .operator operator _ hf (.binary type hop)

theorem selectorForm_of_unarySelector {p : Place} {source : ByteArray} {s : Selector}
    (type : p.type = "unary") (h : p.unarySelector = .ok s) : SelectorForm source p s := by
  unfold unarySelector at h
  cases hf : p.field? "operator" with
  | none => simp [hf] at h
  | some operator =>
    cases hm : unaryMessage? operator.type with
    | none => simp [hf, hm] at h
    | some message =>
      simp only [hf, hm, Except.ok.injEq] at h
      subst h
      exact .operator operator _ hf (.unary type hm)

theorem selectorForm_callSelector {p : Place} {source : ByteArray} (type : p.type = "call") :
    SelectorForm source p (p.callSelector source) := by
  unfold callSelector
  cases hf : p.field? "method" with
  | none => exact .implicit type hf
  | some name => exact .named name type hf

/-- Each type of call has selectors of its own form. -/
theorem selectorForm_of_selector {p : Place} {source : ByteArray} {s : Selector}
    (kind : p.kind = .call) (h : p.selector source = .ok s) : SelectorForm source p s := by
  unfold selector at h
  rcases type_of_kind_eq_call kind with type | type | type | type
  · simp only [type, beq_self_eq_true, if_true] at h
    exact selectorForm_of_binarySelector type (isOperatorCall_of_kind_eq_call kind (.inl type)) h
  · simp only [type, String.reduceBEq, Bool.false_eq_true, if_false, if_true] at h
    exact selectorForm_of_unarySelector type h
  · simp only [type, String.reduceBEq, Bool.false_eq_true, if_false, if_true] at h
    rw [← Except.ok.inj h]
    exact .index type
  · simp only [type, String.reduceBEq, Bool.false_eq_true, if_false] at h
    rw [← Except.ok.inj h]
    exact selectorForm_callSelector type

end Place

end RubyOutline
