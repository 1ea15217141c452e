import RubyOutline.Proofs.Composition
import RubyOutline.Proofs.Relabel

/-!
Plain and compound assignments. An assignment that becomes a compound one writes to the same
variables and binds the same names as before. What is left of it is read before it is written to,
so a call there sends the message without the equals sign that a setter ends in. Nothing else in a
report depends on the difference.
-/

namespace RubyOutline

/-- A text without its last character. -/
def Text.dropLast (text : String) : String := String.ofList text.toList.dropLast

theorem Text.dropLast_append_eq (text : String) : dropLast (text ++ "=") = text := by
  rw [dropLast, String.toList_append]
  show String.ofList (text.toList ++ ['=']).dropLast = text
  rw [List.dropLast_concat, String.ofList_toList]

namespace Place

section Compound

variable (S : Set Place) [DecidablePred (· ∈ S)]

/-- A label, of a compound assignment for the places of a set. -/
def compoundLabel (p : Place) : Label :=
  if p ∈ S then { p.label with type := "operator_assignment" } else p.label

/-- The same place where the places of a set are compound assignments. -/
def compound (p : Place) : Place := p.relabel (compoundLabel S)

/-- Whether a node stands on the left side of one of some assignments. -/
def isLeftIn (q : Place) : Bool := q.parent?.any (· ∈ S) && q.fills "left"

/-- Whether a node is a call that writes through one of some assignments. -/
def isSetterIn (q : Place) : Bool :=
  q.isLeftIn S &&
    (q.type == "element_reference" || q.type == "call" && (q.field? "method").isSome)

/-- The message that a call sends where the places of a set are compound assignments, from the
one that it sends otherwise. -/
def compoundName (q : Place) (name : String) : String :=
  if q.isSetterIn S then Text.dropLast name else name

/-- The record of a call where the places of a set are compound assignments. -/
def compoundCall {τ : Type} (q : Place) (c : Mention τ) : Mention τ :=
  ⟨q.compoundName S c.name, c.line⟩

/-- The record of a method where the places of a set are compound assignments: the same record,
but for the names of the calls that write through one of these. -/
def compoundRecord (source : ByteArray) (m : Place) : MethodOutline (Option Nat) :=
  { m.methodRecord source with
    calls := m.walk.zipIdx.filterMap fun (q, i) =>
      (q.callAfter source Token.line? (m.walk.take i)).map (q.compoundCall S) }

end Compound

/-- The report on a program, with records of their own for the methods. -/
def reportWith (source : ByteArray) (record : Place → MethodOutline (Option Nat)) (p : Place) :
    Report (Option Nat) :=
  match p.classNodes with
  | [] => .topLevel (p.methodNodes.map record)
  | cs => .classes <| cs.map fun c =>
      { c.classRecord source with methods := c.methodNodes.map record }

theorem report_eq_reportWith (source : ByteArray) (p : Place) :
    p.report source = p.reportWith source (methodRecord source) := by
  unfold reportWith
  split
  · next hempty => exact report_eq_topLevel source hempty
  · next cs hsome =>
    rw [report_eq_classes source hsome]
    congr 2
    funext c
    rw [← methods_classRecord]

/-- The record of a method, told without a scan. -/
theorem methodRecord_eq (source : ByteArray) (m : Place) :
    m.methodRecord source =
      { name := m.fieldText source "name"
        arguments := m.argumentNames source
        line := Token.line? (m.field? "name")
        instanceVariables := (describe source Token.line? m.walk).instanceVariables
        localVariables := (describe source Token.line? m.walk).localVariables
        calls := (describe source Token.line? m.walk).calls
        conditions := (describe source Token.line? m.walk).conditions } := by
  have hstart : ∀ name, name ∈ ([] : List String) ↔
      ∃ q ∈ ([] : List Place), q.boundName? source = some name := by simp
  rw [← describeAfter_nil, ← map_ofFindings_additions hstart, ← findings_eq_additions]
  rfl

variable {S : Set Place} [DecidablePred (· ∈ S)]

/-! ### What stays -/

theorem keepsShape_compoundLabel : KeepsShape (compoundLabel S) := by
  constructor <;> intro p <;> unfold compoundLabel <;> split <;> rfl

theorem text_compound (source : ByteArray) (p : Place) :
    (p.compound S).text source = p.text source := by
  rw [text, compound, label_relabel, compoundLabel, text]
  split <;> rfl

theorem conditionText_compound (source : ByteArray) (q : Place) :
    (q.compound S).conditionText source = q.conditionText source := by
  rw [conditionText, text_compound, conditionText]

theorem line?_map_compound (token : Token) :
    Token.line? (token.map (compound S)) = token.line? := by
  cases token with
  | none => rfl
  | some p =>
    show (compound S p).label.line? = p.label.line?
    rw [compound, label_relabel, compoundLabel]
    split <;> rfl

theorem parent?_compound (p : Place) :
    (p.compound S).parent? = p.parent?.map (compound S) :=
  parent?_relabel p

theorem field?_compound (p : Place) (name : String) :
    (p.compound S).field? name = (p.field? name).map (compound S) :=
  keepsShape_compoundLabel.field?_relabel p name

theorem fills_compound (p : Place) (name : String) : (p.compound S).fills name = p.fills name :=
  keepsShape_compoundLabel.fills_relabel p name

theorem walk_compound (p : Place) : (p.compound S).walk = p.walk.map (compound S) :=
  keepsShape_compoundLabel.walk_relabel p

theorem type_compound (p : Place) :
    (p.compound S).type = if p ∈ S then "operator_assignment" else p.type := by
  rw [type, compound, label_relabel, compoundLabel]
  split <;> rfl

/-! ### Setters -/

/-- The setters among some assignments are on their left sides. -/
theorem isSetterIn_iff {a q : Place} (hq : q ∈ a.nodes) :
    q.isSetterIn S = true ↔ a ∈ S ∧ a.field? "left" = some q ∧
      (q.type = "element_reference" ∨ q.type = "call" ∧ (q.field? "method").isSome) := by
  simp [isSetterIn, isLeftIn, parent?_of_mem_nodes hq, fills_iff hq, and_assoc]

theorem kind_of_isSetterIn {q : Place} (hq : q.isSetterIn S = true) : q.kind = .call := by
  obtain ⟨-, htype⟩ := Bool.and_eq_true_iff.1 hq
  have htype' : q.type = "element_reference" ∨ q.type = "call" := by
    simp only [Bool.or_eq_true, Bool.and_eq_true, beq_iff_eq] at htype
    exact htype.imp_right And.left
  rcases htype' with htype | htype <;> simp [kind, htype]

section Types

variable (h : ∀ p ∈ S, p.type = "assignment")

include h

theorem type_compound_of_ne {p : Place} (hp : p.type ≠ "assignment") :
    (p.compound S).type = p.type := by
  rw [type_compound, if_neg fun hS => hp (h p hS)]

/-- A test that does not tell the two kinds of assignments apart takes no notice. -/
theorem test_type_compound (test : String → Bool)
    (htest : test "operator_assignment" = test "assignment") (p : Place) :
    test (p.compound S).type = test p.type := by
  rw [type_compound]
  split
  · next hS => rw [htest, h p hS]
  · rfl

theorem any_parentType?_compound (test : String → Bool)
    (htest : test "operator_assignment" = test "assignment") (p : Place) :
    (p.compound S).parentType?.any test = p.parentType?.any test := by
  rw [parentType?, parentType?, parent?_compound]
  cases p.parent? with
  | none => rfl
  | some parent => exact test_type_compound h test htest parent

theorem any_fieldType?_compound (test : String → Bool)
    (htest : test "operator_assignment" = test "assignment") (p : Place) (name : String) :
    ((p.compound S).fieldType? name).any test = (p.fieldType? name).any test := by
  rw [fieldType?, fieldType?, field?_compound]
  cases p.field? name with
  | none => rfl
  | some q => exact test_type_compound h test htest q

/-! ### Kinds -/

theorem isTarget_compound (p : Place) : (p.compound S).isTarget = p.isTarget := by
  rw [isTarget_eq, isTarget_eq]
  simp only [fills_compound]
  apply any_parentType?_compound h _
  simp [assignmentTypes]

theorem isParameter_compound (p : Place) : (p.compound S).isParameter = p.isParameter := by
  rw [isParameter_eq, isParameter_eq]
  simp only [fills_compound]
  apply any_parentType?_compound h _
  simp [parameterListTypes, namedParameterTypes]

theorem isMethodName_compound (p : Place) : (p.compound S).isMethodName = p.isMethodName := by
  rw [isMethodName_eq, isMethodName_eq]
  simp only [fills_compound]
  apply any_parentType?_compound h _
  simp

theorem isOperatorCall_compound (p : Place) :
    (p.compound S).isOperatorCall = p.isOperatorCall := by
  have hbinary : ((p.compound S).type == "binary") = (p.type == "binary") :=
    test_type_compound h (· == "binary") rfl p
  have hoperand := any_fieldType?_compound h numericTypes.contains rfl p "operand"
  rw [isOperatorCall_eq, isOperatorCall_eq, hbinary, hoperand]
  apply any_fieldType?_compound h _
  simp [methodOperators, unaryMessage?]

theorem kind_compound (p : Place) : (p.compound S).kind = p.kind := by
  by_cases hS : p ∈ S
  · have htype : (p.compound S).type = "operator_assignment" := by rw [type_compound, if_pos hS]
    simp [kind, htype, h p hS, conditionalTypes]
  · have htype : (p.compound S).type = p.type := by rw [type_compound, if_neg hS]
    simp only [kind, identifierKind, htype, isOperatorCall_compound h, isTarget_compound h,
      isParameter_compound h, isMethodName_compound h]

theorem keepsNames_compound (source : ByteArray) : KeepsNames (compound S) source source where
  text := text_compound source
  field := field?_compound
  members := keepsShape_compoundLabel.members_relabel fun q =>
    test_type_compound h (· == "comment") rfl q
  type_beq p type htype := by
    have hnames : ∀ t ∈ nameTypes, ("operator_assignment" == t) = ("assignment" == t) := by decide
    exact test_type_compound h (· == type) (hnames type htype) p

theorem boundName?_compound (source : ByteArray) (p : Place) :
    (p.compound S).boundName? source = p.boundName? source := by
  rw [boundName?, kind_compound h, text_compound, boundName?]

/-! ### Messages -/

theorem writeSuffix_of_isLeftIn {q : Place} (hq : q.isLeftIn S = true) :
    q.writeSuffix = "=" ∧ (q.compound S).writeSuffix = "" := by
  obtain ⟨hparent, hfills⟩ := Bool.and_eq_true_iff.1 hq
  obtain ⟨p, hp, hS⟩ := (Option.any_eq_true _ _).1 hparent
  have hmem : p ∈ S := by simpa using hS
  have htype : (p.compound S).type = "operator_assignment" := by rw [type_compound, if_pos hmem]
  have hplain : q.isPlainWrite = true := by
    simp [isPlainWrite, isTarget, parentIsA, hp, h p hmem, assignmentTypes, hfills]
  have hcompound : (q.compound S).isPlainWrite = false := by
    simp [isPlainWrite, parentIsA, parent?_compound, hp, htype]
  simp [writeSuffix, hplain, hcompound]

theorem writeSuffix_of_not_isLeftIn {q : Place} (hq : q.isLeftIn S = false) :
    (q.compound S).writeSuffix = q.writeSuffix := by
  have hplain : (q.compound S).isPlainWrite = q.isPlainWrite := by
    rw [isPlainWrite, isPlainWrite, isTarget_compound h]
    cases hp : q.parent? with
    | none => simp [isTarget, hp]
    | some p =>
      by_cases hS : p ∈ S
      · -- Nothing but the left side of an assignment is written to.
        have hfills : q.fills "left" = false := by simpa [isLeftIn, hp, hS] using hq
        simp [isTarget, hp, h p hS, assignmentTypes, hfills]
      · have htype : (p.compound S).type = p.type := by rw [type_compound, if_neg hS]
        simp only [parentIsA, parent?_compound, hp, Option.map_some, Option.any_some, htype]
  rw [writeSuffix, hplain, writeSuffix]

theorem bracket_compound (q : Place) :
    (q.compound S).nodes.find? (·.type == "[") =
      (q.nodes.find? (·.type == "[")).map (compound S) := by
  rw [compound, nodes_relabel, List.find?_map]
  congr 2
  funext r
  exact test_type_compound h (· == "[") rfl r

theorem compoundName_append_writeSuffix {q : Place}
    (hq : q.type = "element_reference" ∨ q.type = "call" ∧ (q.field? "method").isSome)
    (message : String) :
    q.compoundName S (message ++ q.writeSuffix) = message ++ (q.compound S).writeSuffix := by
  cases hleft : q.isLeftIn S with
  | true =>
    have hsetter : q.isSetterIn S = true := by
      rcases hq with hq | hq <;> simp [isSetterIn, hleft, hq]
    obtain ⟨hplain, hcompound⟩ := writeSuffix_of_isLeftIn h hleft
    rw [compoundName, if_pos hsetter, hplain, hcompound, Text.dropLast_append_eq,
      String.append_empty]
  | false =>
    have hsetter : ¬ q.isSetterIn S = true := by simp [isSetterIn, hleft]
    rw [compoundName, if_neg hsetter, writeSuffix_of_not_isLeftIn h hleft]

/-- A call sends the same message, but through an assignment that has become a compound one it
sends the message without the equals sign at its end. -/
theorem selector_compound {source : ByteArray} {q : Place} (hq : q.kind = .call) :
    (q.compound S).selector source = (q.selector source).map fun s =>
      ⟨q.compoundName S s.name, s.token.map (compound S)⟩ := by
  obtain ⟨s, hs⟩ := exists_selector_of_kind_eq_call hq source
  have htype : (q.compound S).type = q.type := by
    apply type_compound_of_ne h
    intro hassignment
    simpa [hassignment] using type_of_kind_eq_call hq
  rw [hs]
  cases selectorForm_of_selector hq hs with
  | operator operator message token sent =>
    have hoperator : (operator.compound S).type = operator.type := by
      apply type_compound_of_ne h
      intro hassignment
      cases sent with
      | binary _ sent => simp [hassignment, methodOperators] at sent
      | unary _ sent => simp [hassignment, unaryMessage?] at sent
    cases sent with
    | binary type _ =>
      simp [selector, binarySelector, htype, type, field?_compound, token, hoperator,
        compoundName, isSetterIn, Except.map]
    | unary type sent =>
      simp [selector, unarySelector, htype, type, field?_compound, token, hoperator, sent,
        compoundName, isSetterIn, Except.map]
  | index type =>
    simp [selector, indexSelector, htype, type, bracket_compound h, Except.map,
      compoundName_append_writeSuffix h (.inl type)]
  | implicit type token =>
    simp [selector, callSelector, htype, type, field?_compound, token, compoundName, isSetterIn,
      Except.map]
  | named name type token =>
    have hsome : (q.field? "method").isSome := by rw [token, Option.isSome_some]
    simp [selector, callSelector, htype, type, field?_compound, token, text_compound, Except.map,
      compoundName_append_writeSuffix h (.inr ⟨type, hsome⟩)]

/-! ### Scans -/

theorem isBoundBy_compound (source : ByteArray) (earlier : List Place) (q : Place) :
    (q.compound S).isBoundBy source (earlier.map (compound S)) = q.isBoundBy source earlier := by
  simp only [isBoundBy, List.any_map, Function.comp_def, kind_compound h, text_compound]

theorem callAfter_compound (source : ByteArray) (earlier : List Place) (q : Place) :
    (q.compound S).callAfter source Token.line? (earlier.map (compound S)) =
      (q.callAfter source Token.line? earlier).map (q.compoundCall S) := by
  rw [callAfter, kind_compound h, callAfter]
  cases hq : q.kind with
  | call =>
    simp only [selector_compound h hq]
    cases q.selector source with
    | error e => rfl
    | ok s => simp [Except.map, Except.toOption, compoundCall, line?_map_compound]
  | bareName =>
    have hname : ¬ q.isSetterIn S = true := by
      simp [isSetterIn, type_of_kind_eq_bareName hq]
    have hline : Token.line? (some (q.compound S)) = Token.line? (some q) :=
      line?_map_compound (some q)
    simp only [isBoundBy_compound h, text_compound, hline]
    cases q.isBoundBy source earlier with
    | true => rfl
    | false => simp [compoundCall, compoundName, hname]
  | _ => rfl

theorem describe_compound (source : ByteArray) (visited : List Place) :
    describe source Token.line? (visited.map (compound S)) =
      { describe source Token.line? visited with
        calls := visited.zipIdx.filterMap fun (q, i) =>
          (q.callAfter source Token.line? (visited.take i)).map (q.compoundCall S) } := by
  have hline : ∀ q : Place, Token.line? (some (q.compound S)) = Token.line? (some q) :=
    fun q => line?_map_compound (some q)
  simp only [describe, List.filter_map, List.map_map, Function.comp_def, kind_compound h,
    text_compound, conditionText_compound, hline, List.zipIdx_map, List.filterMap_map,
    ← List.map_take, Prod.map, callAfter_compound h, id_eq]

/-! ### Reports -/

theorem methodRecord_compound (source : ByteArray) (m : Place) :
    (m.compound S).methodRecord source = m.compoundRecord S source := by
  have hnames := keepsNames_compound h source
  rw [compoundRecord, methodRecord_eq, methodRecord_eq, walk_compound, describe_compound h,
    hnames.fieldText_eq, hnames.argumentNames_eq, field?_compound, line?_map_compound]

theorem filter_walk_compound (test : String → Bool)
    (htest : test "operator_assignment" = test "assignment") (p : Place) :
    ((p.compound S).walk.filter fun q => test q.type) =
      (p.walk.filter fun q => test q.type).map (compound S) := by
  rw [walk_compound, List.filter_map]
  congr 2
  funext q
  exact test_type_compound h test htest q

theorem classNodes_compound (p : Place) :
    (p.compound S).classNodes = p.classNodes.map (compound S) :=
  filter_walk_compound h (· == "class") rfl p

theorem methodNodes_compound (p : Place) :
    (p.compound S).methodNodes = p.methodNodes.map (compound S) :=
  filter_walk_compound h (· == "method") rfl p

theorem methodNodes_map_compound (source : ByteArray) (p : Place) :
    (p.compound S).methodNodes.map (methodRecord source) =
      p.methodNodes.map (compoundRecord S source) := by
  rw [methodNodes_compound h, List.map_map]
  exact List.map_congr_left fun m _ => methodRecord_compound h source m

theorem classRecord_compound (source : ByteArray) (c : Place) :
    { (c.compound S).classRecord source with
      methods := (c.compound S).methodNodes.map (methodRecord source) } =
      { c.classRecord source with methods := c.methodNodes.map (compoundRecord S source) } := by
  have hnames := keepsNames_compound h source
  simp only [classRecord, classOutline, ClassOutline.map, methodNodes_map_compound h,
    hnames.className_eq, hnames.superclassName?_eq, field?_compound, line?_map_compound]

theorem report_compound_eq_reportWith (source : ByteArray) (p : Place) :
    (p.compound S).report source = p.reportWith source (compoundRecord S source) := by
  rw [report_eq_reportWith, reportWith, classNodes_compound h, methodNodes_map_compound h,
    reportWith]
  cases p.classNodes with
  | nil => rfl
  | cons c cs =>
    simp only [List.map_cons, List.map_map, Function.comp_def, classRecord_compound h]

/-- What a setter sends ends in an equals sign, and where the assignment is a compound one it
sends the rest. -/
theorem selector_of_isSetterIn (source : ByteArray) {q : Place} (hq : q.isSetterIn S = true) :
    ∃ stem token, q.selector source = .ok ⟨stem ++ "=", token⟩ ∧
      (q.compound S).selector source = .ok ⟨stem, token.map (compound S)⟩ := by
  have hkind := kind_of_isSetterIn hq
  obtain ⟨hleft, htype⟩ := Bool.and_eq_true_iff.1 hq
  obtain ⟨s, hs⟩ := exists_selector_of_kind_eq_call hkind source
  have hstem : ∃ stem, s.name = stem ++ "=" := by
    have hsuffix := (writeSuffix_of_isLeftIn h hleft).1
    cases selectorForm_of_selector hkind hs with
    | operator operator message token sent =>
      cases sent with
      | binary type _ => simp [type] at htype
      | unary type _ => simp [type] at htype
    | index type => exact ⟨"[]", by rw [hsuffix]⟩
    | implicit type token => simp [type, token] at htype
    | named name type token => exact ⟨name.text source, by rw [hsuffix]⟩
  obtain ⟨stem, hstem⟩ := hstem
  have hname : q.compoundName S s.name = stem := by
    rw [compoundName, if_pos hq, hstem, Text.dropLast_append_eq]
  refine ⟨stem, s.token, ?_, ?_⟩
  · rw [hs, ← hstem]
  · rw [selector_compound h hkind, hs, Except.map, hname]

end Types

/-- What becomes of the report on a program when some assignments become compound ones. -/
structure CompoundReport (S : Set Place) [DecidablePred (· ∈ S)] (source : ByteArray)
    (p : Place) : Prop where
  before : p.report source = p.reportWith source (methodRecord source)
  after : (p.compound S).report source = p.reportWith source (compoundRecord S source)
  /-- The calls of a method are told of the places that are walked, one by one, before the
  change as after it. -/
  calls : ∀ m : Place, (m.methodRecord source).calls = m.walk.zipIdx.filterMap fun (q, i) =>
    q.callAfter source Token.line? (m.walk.take i)
  /-- Every name is bound where it was bound. -/
  bound : ∀ q : Place, (q.compound S).boundName? source = q.boundName? source
  /-- The calls that have other names are those on the left sides. -/
  setters : ∀ a q : Place, q ∈ a.nodes → (q.isSetterIn S = true ↔
    a ∈ S ∧ a.field? "left" = some q ∧
      (q.type = "element_reference" ∨ q.type = "call" ∧ (q.field? "method").isSome))
  /-- They lose the equals sign at the end. -/
  names : ∀ q : Place, q.isSetterIn S = true → q.kind = .call ∧
    ∃ stem token, q.selector source = .ok ⟨stem ++ "=", token⟩ ∧
      (q.compound S).selector source = .ok ⟨stem, token.map (compound S)⟩

/-- If assignments, one or many, become compound ones, the calls that write through their left
sides lose the equals sign at the end of their names, in the record of every method around them,
and the report stays as it is in all else. -/
theorem report_compound (source : ByteArray) (S : Set Place) [DecidablePred (· ∈ S)]
    (h : ∀ a ∈ S, a.type = "assignment") (p : Place) : CompoundReport S source p where
  before := report_eq_reportWith source p
  after := report_compound_eq_reportWith h source p
  calls m := by rw [methodRecord_eq, describe]
  bound := boundName?_compound h source
  setters _ _ hq := isSetterIn_iff hq
  names _ hq := ⟨kind_of_isSetterIn hq, selector_of_isSetterIn h source hq⟩

/-! ### A compound write to an attribute -/

/-- A method that writes to an attribute and to an element. -/
def setterSource : ByteArray := "def a\n  b.c = 1\n  d[0] = 2\nend\n".toUTF8

def attributeWrite : List Tree :=
  [.node (plainLabel "call" 8 11 1 2 (some "left"))
    [.node (plainLabel "identifier" 8 9 1 2 (some "receiver")) [],
     .node (plainLabel "identifier" 10 11 1 4 (some "method")) []],
   .node (plainLabel "integer" 14 15 1 8 (some "right")) []]

def elementWrite : List Tree :=
  [.node (plainLabel "element_reference" 18 22 2 2 (some "left"))
    [.node (plainLabel "identifier" 18 19 2 2 (some "object")) [],
     .node { plainLabel "[" 19 20 2 3 none with named := false } [],
     .node (plainLabel "integer" 20 21 2 4 none) []],
   .node (plainLabel "integer" 25 26 2 9 (some "right")) []]

def setterMethod : Place :=
  .top (plainLabel "method" 0 30 0 0 none)
    [.node (plainLabel "identifier" 4 5 0 4 (some "name")) [],
     .node (plainLabel "body_statement" 8 26 1 2 (some "body"))
      [.node (plainLabel "assignment" 8 15 1 2 none) attributeWrite,
       .node (plainLabel "assignment" 18 26 2 2 none) elementWrite]]

/-- The first of the two writes becomes a compound one. -/
theorem report_compound_setterMethod :
    (∀ a ∈ {a : Place | a.type = "assignment" ∧ a.label.span.start = 8},
        a.type = "assignment") ∧
      setterMethod.report setterSource =
        .topLevel [⟨"a", [], some 1, [], [],
          [⟨"c=", some 2⟩, ⟨"b", some 2⟩, ⟨"[]=", some 3⟩, ⟨"d", some 3⟩], []⟩] ∧
      (setterMethod.compound
          {a | a.type = "assignment" ∧ a.label.span.start = 8}).report setterSource =
        .topLevel [⟨"a", [], some 1, [], [],
          [⟨"c", some 2⟩, ⟨"b", some 2⟩, ⟨"[]=", some 3⟩, ⟨"d", some 3⟩], []⟩] := by
  have hassignment : ∀ a ∈ {a : Place | a.type = "assignment" ∧ a.label.span.start = 8},
      a.type = "assignment" := fun _ ha => ha.1
  have hreport := report_compound setterSource _ hassignment setterMethod
  refine ⟨hassignment, ?_, ?_⟩
  · rw [hreport.before]
    decide +kernel
  · rw [hreport.after]
    decide +kernel

end Place

end RubyOutline
