import RubyOutline.Proofs.Refusals

/-!
Outlines never fail. They are made once more here by functions that give up when a node refuses an
answer that nobody takes for an empty one, or when the message of a call cannot be told. They never
give up, on any tree and any source: the refusals there are have all been expected where the node
was asked, and what is a call by its kind has a message.
-/

namespace RubyOutline

namespace Strict

open Place

/-! ### Scans that may be given up -/

/-- Visits the places of an agenda until a visit fails. -/
def foldAgenda {σ : Type} (visit : σ → Place → Answer σ) : List Place → σ → Answer σ
  | [], acc => .ok acc
  | p :: agenda, acc =>
    if p.label.named then
      match visit acc p with
      | .error failure => .error failure
      | .ok acc => foldAgenda visit (p.nodes ++ agenda) acc
    else foldAgenda visit agenda acc
termination_by agenda => sizeAll agenda
decreasing_by
  · have := sizeAll_nodes p
    simp only [sizeAll_append, sizeAll_cons]
    omega
  · have := size_pos p
    simp only [sizeAll_cons]
    omega

def note (wanted : Kind) (found : Array Place) (p : Place) : Answer (Array Place) := do
  return if (← kind p) == wanted then found.push p else found

/-- The places of some kind that are walked from a place on. -/
def collect (wanted : Kind) (p : Place) : Answer (List Place) :=
  (foldAgenda (note wanted) [p] #[]).map (·.toList)

variable (source : ByteArray)

def boundName? (p : Place) : Answer (Option String) := do
  match ← kind p with
  | .localWrite | .parameter => return some (p.text source)
  | _ => return none

/-- What a place contributes, unless it is a call whose message cannot be told. -/
def finding? (bound : List String) (p : Place) : Answer (Option (Finding Token)) := do
  match ← kind p with
  | .instanceWrite => return some (.instanceVariable ⟨p.text source, some p⟩)
  | .localWrite => return some (.localVariable ⟨p.text source, some p⟩)
  | .bareName =>
    let name := p.text source
    return if bound.contains name then none else some (.call ⟨name, some p⟩)
  | .call =>
    let sent ← selector p source
    return some (.call ⟨sent.name, sent.token⟩)
  | .conditional => return some (.condition ⟨p.conditionText source, some p⟩)
  | _ => return none

def visit (scan : Scan) (p : Place) : Answer Scan := do
  let name ← boundName? source p
  let finding ← finding? source scan.bound p
  return {
    bound := match name with
      | some name => scan.bound.insert name
      | none => scan.bound
    found := match finding with
      | some finding => scan.found.push finding
      | none => scan.found }

def findings (p : Place) : Answer (List (Finding Token)) :=
  (foldAgenda (visit source) [p] Scan.start).map (·.found.toList)

/-! ### Outlines that may be given up -/

def argumentName (p : Place) : Answer String :=
  if p.type == "identifier" || p.type == "destructured_parameter" then .ok (p.text source)
  else do
    match ← childField p "name" with
    | some name => return name.text source
    | none => return ""

def argumentNames (p : Place) : Answer (List String) := do
  match ← childField p "parameters" with
  | some parameters => parameters.members.mapM (argumentName source)
  | none => return []

def fieldText (name : String) (p : Place) : Answer String := do
  match ← childField p name with
  | some q => return q.text source
  | none => return ""

def methodOutline (p : Place) : Answer (MethodOutline Token) := do
  let found ← findings source p
  return {
    name := ← fieldText source "name" p
    arguments := ← argumentNames source p
    line := ← childField p "name"
    instanceVariables := found.filterMap Finding.instanceVariable?
    localVariables := found.filterMap Finding.localVariable?
    calls := found.filterMap Finding.call?
    conditions := found.filterMap Finding.condition? }

def methodOutlines (p : Place) : Answer (List (MethodOutline Token)) := do
  (← collect .methodDefinition p).mapM (methodOutline source)

def superclassName? (p : Place) : Answer (Option String) := do
  match (← childField p "superclass").bind (·.members.head?) with
  | some expression => constantPath? expression source
  | none => return none

def className (p : Place) : Answer String := do
  let path ← match ← childField p "name" with
    | some name => constantPath? name source
    | none => pure none
  match path with
  | some path => return path
  | none => fieldText source "name" p

def classOutline (p : Place) : Answer (ClassOutline Token) := do
  return ⟨← className source p, ← superclassName? source p, ← childField p "name",
    ← methodOutlines source p⟩

def outline (p : Place) : Answer (Report Token) := do
  match ← collect .classDefinition p with
  | [] => return .topLevel (← methodOutlines source p)
  | classes => return .classes (← classes.mapM (classOutline source))

/-! ### Lines that may be given up -/

def tokenLine : Token → Answer (Option Nat)
  | some p => lineOf p.label
  | none => .ok none

def locateMention (m : Mention Token) : Answer (Mention (Option Nat)) := do
  return ⟨m.name, ← tokenLine m.line⟩

def locateCondition (c : Condition Token) : Answer (Condition (Option Nat)) := do
  return ⟨c.text, ← tokenLine c.line⟩

def locateMethod (o : MethodOutline Token) : Answer (MethodOutline (Option Nat)) := do
  return {
    name := o.name
    arguments := o.arguments
    line := ← tokenLine o.line
    instanceVariables := ← o.instanceVariables.mapM locateMention
    localVariables := ← o.localVariables.mapM locateMention
    calls := ← o.calls.mapM locateMention
    conditions := ← o.conditions.mapM locateCondition }

def locateClass (o : ClassOutline Token) : Answer (ClassOutline (Option Nat)) := do
  return ⟨o.name, o.superclass, ← tokenLine o.line, ← o.methods.mapM locateMethod⟩

def locate : Report Token → Answer (Report (Option Nat))
  | .classes classes => do return .classes (← classes.mapM locateClass)
  | .topLevel methods => do return .topLevel (← methods.mapM locateMethod)

/-- What is reported of a method by itself. -/
def methodReport (p : Place) : Answer (MethodOutline (Option Nat)) := do
  locateMethod (← methodOutline source p)

/-- What is reported of a class by itself. -/
def classReport (p : Place) : Answer (ClassOutline (Option Nat)) := do
  locateClass (← classOutline source p)

def report (p : Place) : Answer (Report (Option Nat)) := do
  locate (← outline source p)

/-! ### None is given up -/

variable {source}

theorem foldAgenda_eq_ok {σ : Type} {visit : σ → Place → Answer σ} {step : σ → Place → σ}
    (h : ∀ acc p, visit acc p = .ok (step acc p)) (agenda : List Place) (acc : σ) :
    foldAgenda visit agenda acc = .ok (Place.foldAgenda step agenda acc) := by
  fun_induction Place.foldAgenda step agenda acc with
  | case1 acc => rw [foldAgenda]
  | case2 p agenda acc hn ih => rw [foldAgenda, if_pos hn, h]; exact ih
  | case3 p agenda acc hn ih => rw [foldAgenda, if_neg hn]; exact ih

theorem mapM_eq_ok {α β : Type} {f : α → Answer β} {g : α → β} (h : ∀ a, f a = .ok (g a))
    (as : List α) : as.mapM f = .ok (as.map g) := by
  rw [show f = fun a => pure (g a) from funext h, List.mapM_pure]
  rfl

theorem collect_eq_ok (wanted : Kind) (p : Place) :
    collect wanted p = .ok (p.collect (·.kind == wanted)) := by
  have hnote (found : Array Place) (q : Place) :
      note wanted found q = .ok (if q.kind == wanted then found.push q else found) := by
    rw [note, kind_eq_ok]
    rfl
  rw [collect, foldAgenda_eq_ok hnote]
  rfl

theorem boundName?_eq_ok (p : Place) : boundName? source p = .ok (p.boundName? source) := by
  simp only [boundName?, Place.boundName?, kind_eq_ok]
  cases p.kind <;> rfl

theorem finding?_eq_ok (bound : List String) (p : Place) :
    finding? source bound p = .ok (p.finding? source bound) := by
  simp only [finding?, Place.finding?, kind_eq_ok]
  cases hk : p.kind with
  | call =>
    -- Nothing but this could fail, and what is a call by its kind has a message.
    obtain ⟨s, hs⟩ := exists_selector_of_kind_eq_call hk source
    simp only [selector_eq, hs]
    rfl
  | _ => rfl

theorem visit_eq_ok (scan : Scan) (p : Place) :
    visit source scan p = .ok (scan.visit source p) := by
  rw [visit, boundName?_eq_ok, finding?_eq_ok]
  rfl

theorem findings_eq_ok (p : Place) : findings source p = .ok (RubyOutline.findings source p) := by
  rw [findings, foldAgenda_eq_ok visit_eq_ok]
  rfl

theorem argumentName_eq_ok (p : Place) : argumentName source p = .ok (p.argumentName source) := by
  unfold argumentName Place.argumentName
  rw [childField_eq_ok]
  split
  · rfl
  · cases p.field? "name" <;> rfl

theorem argumentNames_eq_ok (p : Place) :
    argumentNames source p = .ok (p.argumentNames source) := by
  unfold argumentNames Place.argumentNames
  rw [childField_eq_ok]
  cases p.field? "parameters" with
  | none => rfl
  | some parameters => exact mapM_eq_ok argumentName_eq_ok _

theorem fieldText_eq_ok (name : String) (p : Place) :
    fieldText source name p = .ok (p.fieldText source name) := by
  unfold fieldText Place.fieldText
  rw [childField_eq_ok]
  cases p.field? name <;> rfl

theorem methodOutline_eq_ok (p : Place) :
    methodOutline source p = .ok (p.methodOutline source) := by
  rw [methodOutline, findings_eq_ok, fieldText_eq_ok, argumentNames_eq_ok, childField_eq_ok]
  rfl

theorem methodOutlines_eq_ok (p : Place) :
    methodOutlines source p = .ok (p.methodOutlines source) := by
  rw [methodOutlines, collect_eq_ok]
  exact mapM_eq_ok methodOutline_eq_ok _

theorem superclassName?_eq_ok (p : Place) :
    superclassName? source p = .ok (p.superclassName? source) := by
  unfold superclassName? Place.superclassName?
  rw [childField_eq_ok]
  cases p.field? "superclass" with
  | none => rfl
  | some superclass =>
    dsimp only [Bind.bind, Except.bind, Option.bind]
    cases superclass.members.head? with
    | none => rfl
    | some expression => exact constantPath?_eq_ok expression source

theorem className_eq_ok (p : Place) : className source p = .ok (p.className source) := by
  unfold className Place.className
  rw [childField_eq_ok, fieldText_eq_ok]
  cases p.field? "name" with
  | none => rfl
  | some name =>
    dsimp only [Bind.bind, Except.bind, Option.bind]
    rw [constantPath?_eq_ok]
    cases name.constantPath? source <;> rfl

theorem classOutline_eq_ok (p : Place) : classOutline source p = .ok (p.classOutline source) := by
  rw [classOutline, className_eq_ok, superclassName?_eq_ok, childField_eq_ok, methodOutlines_eq_ok]
  rfl

theorem outline_eq_ok (p : Place) : outline source p = .ok (p.outline source) := by
  unfold outline Place.outline
  rw [collect_eq_ok, methodOutlines_eq_ok, classDefinitions]
  cases p.collect (·.kind == .classDefinition) with
  | nil => rfl
  | cons c cs =>
    show (do return Report.classes (← (c :: cs).mapM (classOutline source))) = _
    rw [mapM_eq_ok classOutline_eq_ok]
    rfl

theorem tokenLine_eq_ok (token : Token) : tokenLine token = .ok token.line? := by
  cases token with
  | none => rfl
  | some p => exact lineOf_eq_ok p.label

theorem locateMention_eq_ok (m : Mention Token) :
    locateMention m = .ok (m.map Token.line?) := by
  rw [locateMention, tokenLine_eq_ok]
  rfl

theorem locateCondition_eq_ok (c : Condition Token) :
    locateCondition c = .ok (c.map Token.line?) := by
  rw [locateCondition, tokenLine_eq_ok]
  rfl

theorem locateMethod_eq_ok (o : MethodOutline Token) :
    locateMethod o = .ok (o.map Token.line?) := by
  simp only [locateMethod, tokenLine_eq_ok, mapM_eq_ok locateMention_eq_ok,
    mapM_eq_ok locateCondition_eq_ok]
  rfl

theorem locateClass_eq_ok (o : ClassOutline Token) : locateClass o = .ok (o.map Token.line?) := by
  rw [locateClass, tokenLine_eq_ok, mapM_eq_ok locateMethod_eq_ok]
  rfl

theorem locate_eq_ok (r : Report Token) : locate r = .ok (r.map Token.line?) := by
  cases r with
  | classes classes =>
    rw [locate, mapM_eq_ok locateClass_eq_ok]
    rfl
  | topLevel methods =>
    rw [locate, mapM_eq_ok locateMethod_eq_ok]
    rfl

theorem methodReport_eq_ok (p : Place) :
    methodReport source p = .ok ((p.methodOutline source).map Token.line?) := by
  rw [methodReport, methodOutline_eq_ok]
  exact locateMethod_eq_ok _

theorem classReport_eq_ok (p : Place) :
    classReport source p = .ok ((p.classOutline source).map Token.line?) := by
  rw [classReport, classOutline_eq_ok]
  exact locateClass_eq_ok _

theorem report_eq_ok (p : Place) : report source p = .ok (p.report source) := by
  rw [report, outline_eq_ok]
  exact locate_eq_ok _

end Strict

/-! ### Messages that cannot be told -/

namespace Place

variable {source : ByteArray}

theorem selector_eq_noOperator_iff {p : Place} :
    p.selector source = .error .noOperator ↔
      (p.type = "binary" ∨ p.type = "unary") ∧ p.field? "operator" = none := by
  by_cases hb : p.type = "binary"
  · cases hf : p.field? "operator" <;> simp [selector, binarySelector, hb, hf]
  · by_cases hu : p.type = "unary"
    · cases hf : p.field? "operator" with
      | none => simp [selector, unarySelector, hu, hf]
      | some operator =>
        cases hm : unaryMessage? operator.type <;> simp [selector, unarySelector, hu, hf, hm]
    · by_cases he : p.type = "element_reference" <;> simp [selector, hb, hu, he]

theorem selector_eq_unknownOperator_iff {p : Place} {operator : String} :
    p.selector source = .error (.unknownOperator operator) ↔
      p.type = "unary" ∧ unaryMessage? operator = none ∧
        ∃ q, p.field? "operator" = some q ∧ q.type = operator := by
  by_cases hb : p.type = "binary"
  · cases hf : p.field? "operator" <;> simp [selector, binarySelector, hb, hf]
  · by_cases hu : p.type = "unary"
    · cases hf : p.field? "operator" with
      | none => simp [selector, unarySelector, hu, hf]
      | some q =>
        have hselector : p.selector source = p.unarySelector := by simp [selector, hu]
        rw [hselector, unarySelector, hf]
        constructor
        · intro h
          cases hm : unaryMessage? q.type with
          | none =>
            simp only [hm, Except.error.injEq, SelectorError.unknownOperator.injEq] at h
            subst h
            exact ⟨hu, hm, q, rfl, rfl⟩
          | some message => simp [hm] at h
        · rintro ⟨-, hm, _, ⟨⟩, rfl⟩
          simp [hm]
    · by_cases he : p.type = "element_reference" <;> simp [selector, hb, hu, he]

/-- An outline of a method, a class or a program is never given up, and neither is the scan
of a place: they end in what is made without asking whether a node answers or a message can be
told. There are nodes whose message cannot be told, and just these, but they are no calls. Where
a node does not answer for a field or a row, there is no such field and no line. -/
theorem outlines_never_fail :
    (∀ source p, Strict.report source p = .ok (p.report source) ∧
      Strict.classOutline source p = .ok (p.classOutline source) ∧
      Strict.classReport source p = .ok ((p.classOutline source).map Token.line?) ∧
      Strict.methodOutline source p = .ok (p.methodOutline source) ∧
      Strict.methodReport source p = .ok ((p.methodOutline source).map Token.line?) ∧
      Strict.findings source p = .ok (findings source p)) ∧
    (∀ source (p : Place), Strict.selector p source =
      (p.selector source).mapError Strict.Failure.untold) ∧
    (∀ source (p : Place), p.kind = .call → ∃ s, p.selector source = .ok s) ∧
    (∀ source (p : Place), p.selector source = .error .noOperator ↔
      (p.type = "binary" ∨ p.type = "unary") ∧ p.field? "operator" = none) ∧
    (∀ source (p : Place) operator, p.selector source = .error (.unknownOperator operator) ↔
      p.type = "unary" ∧ unaryMessage? operator = none ∧
        ∃ q, p.field? "operator" = some q ∧ q.type = operator) ∧
    (∀ (p : Place) name, p.field? name = (p.askField name).toOption.join) ∧
    ∀ label : Label, label.line? = label.askRow.toOption.bind Coordinate.line? :=
  ⟨fun _ p => ⟨Strict.report_eq_ok p, Strict.classOutline_eq_ok p, Strict.classReport_eq_ok p,
      Strict.methodOutline_eq_ok p, Strict.methodReport_eq_ok p, Strict.findings_eq_ok p⟩,
    fun source p => Strict.selector_eq p source,
    fun source _ hk => exists_selector_of_kind_eq_call hk source,
    fun _ _ => selector_eq_noOperator_iff, fun _ _ _ => selector_eq_unknownOperator_iff,
    field?_eq_askField, Label.line?_eq_askRow⟩

end Place

end RubyOutline
