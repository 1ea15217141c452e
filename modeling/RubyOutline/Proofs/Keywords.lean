import RubyOutline.Proofs.Gate
import RubyOutline.Proofs.Origin
import RubyOutline.Proofs.Standing

/-!
Keywords among the names of a report. The search for stray keywords and the kinds of
identifiers are told by separate tests, which turn out to single out the same identifiers:
those that are written to or stand for themselves. So a tree that goes through the gate has
no variable and no bare call that is spelled like a clause keyword. A message may be, since
a keyword can name a method behind a receiver.
-/

namespace RubyOutline

namespace Place

/-- An identifier whose spelling the search for stray keywords looks at. -/
def isExamined (p : Place) : Bool :=
  p.type == "identifier" && !(p.isMethodName || p.isParameter)

/-- The types of nodes that write to something they hold. -/
def writingTypes : List String := assignmentTypes ++ "for" :: targetListTypes

theorem isStrayKeyword_eq (source : ByteArray) (p : Place) :
    p.isStrayKeyword source = (p.isExamined && clauseKeywords.contains (p.text source)) := rfl

/-! ### Which identifiers are examined -/

theorem exists_parentType_of_isTarget {p : Place} (h : p.isTarget = true) :
    ∃ parent ∈ writingTypes, p.parentType? = some parent := by
  rw [isTarget_eq] at h
  obtain ⟨parent, hp, hwrites⟩ := (Option.any_eq_true _ _).1 h
  refine ⟨parent, ?_, hp⟩
  by_cases ha : parent ∈ assignmentTypes
  · exact List.mem_append_left _ ha
  · refine List.mem_append_right _ ?_
    by_cases hf : parent = "for"
    · exact hf ▸ List.mem_cons_self
    · simp only [List.contains_iff_mem, ha, if_false, beq_iff_eq, hf] at hwrites
      exact List.mem_cons_of_mem _ hwrites

/-- What is written to declares no parameter and names no method: the types of the nodes
around them are different. -/
theorem not_isParameter_of_isTarget {p : Place} (h : p.isTarget = true) :
    p.isParameter = false ∧ p.isMethodName = false := by
  obtain ⟨parent, ht, hp⟩ := exists_parentType_of_isTarget h
  have hparameter : ∀ t ∈ writingTypes,
      t ∉ parameterListTypes ∧ t ∉ namedParameterTypes := by decide
  have hname : ∀ t ∈ writingTypes,
      t ∉ ["method", "singleton_method", "call", "alias", "undef", "setter"] := by decide
  obtain ⟨hlist, hnamed⟩ := hparameter _ ht
  have hmethod := hname _ ht
  simp only [List.mem_cons, not_or] at hmethod
  constructor
  · simp [isParameter_eq, hp, hlist, hnamed]
  · simp [isMethodName_eq, hp, hmethod]

theorem type_of_kind_eq_localWrite {p : Place} (h : p.kind = .localWrite) :
    p.type = "identifier" := by
  revert h
  fun_cases kind p <;> simp_all

/-- The search looks at the identifiers that are written to or bare. -/
theorem isExamined_iff {p : Place} :
    p.isExamined = true ↔ p.kind = .localWrite ∨ p.kind = .bareName := by
  by_cases ht : p.type = "identifier"
  · rw [kind_of_identifier ht]
    -- Kinds ask first whether the identifier is written to, the search never does.
    by_cases hw : p.isTarget = true
    · obtain ⟨hp, hm⟩ := not_isParameter_of_isTarget hw
      simp [isExamined, ht, identifierKind, hw, hp, hm]
    · cases hp : p.isParameter <;> cases hm : p.isMethodName <;>
        simp [isExamined, ht, identifierKind, hw, hp, hm]
  · have hlocal : p.kind ≠ .localWrite := fun h => ht (type_of_kind_eq_localWrite h)
    have hbare : p.kind ≠ .bareName := fun h => ht (type_of_kind_eq_bareName h)
    simp [isExamined, ht, hlocal, hbare]

/-! ### Messages that are spelled like keywords -/

theorem not_mem_clauseKeywords_of_operator {p operator : Place} {message : String}
    (h : OperatorMessage p operator message) : message ∉ clauseKeywords := by
  cases h with
  | binary _ sent =>
    have hall : ∀ m ∈ methodOperators, m ∉ clauseKeywords := by decide
    exact hall _ sent
  | unary _ sent =>
    revert sent
    fun_cases unaryMessage? operator.type <;> rintro ⟨⟩ <;> decide

theorem index_not_mem_clauseKeywords (rest : String) : "[]" ++ rest ∉ clauseKeywords := by
  have hall : ∀ m ∈ clauseKeywords, m.toList.head? ≠ some '[' := by decide
  intro h
  exact hall _ h (by simp)

theorem write_not_mem_clauseKeywords (name : String) : name ++ "=" ∉ clauseKeywords := by
  have hall : ∀ m ∈ clauseKeywords, m.toList.getLast? ≠ some '=' := by decide
  intro h
  exact hall _ h (by simp)

/-- A message that is spelled like a keyword is the name of a method in a call. -/
theorem SelectorForm.of_mem_clauseKeywords {source : ByteArray} {q : Place} {s : Selector}
    (h : SelectorForm source q s) (hs : s.name ∈ clauseKeywords) :
    q.type = "call" ∧ ∃ name, q.field? "method" = some name ∧
      s = ⟨name.text source, some name⟩ := by
  cases h with
  | operator operator message _ sent =>
    exact absurd hs (not_mem_clauseKeywords_of_operator sent)
  | index => exact absurd hs (index_not_mem_clauseKeywords _)
  | implicit =>
    have hcall : implicitMessage ∉ clauseKeywords := by decide
    exact absurd hs hcall
  | named name type token =>
    refine ⟨type, name, token, ?_⟩
    by_cases hw : q.isPlainWrite = true
    · simp only [writeSuffix, hw, if_true] at hs
      exact absurd hs (write_not_mem_clauseKeywords _)
    · simp [writeSuffix, hw]

/-! ### Names behind the gate -/

/-- Whatever its marks say, a tree that goes through the gate has no identifier among
those examined that is spelled like a keyword. -/
theorem not_mem_clauseKeywords_of_syntaxGate {source : ByteArray} {p q : Place}
    (h : p.syntaxGate source = .ok ()) (reached : p.Reaches q) (examined : q.isExamined = true) :
    q.text source ∉ clauseKeywords := by
  have hnone : p.offender source = none := by
    cases ho : p.offender source with
    | none => rfl
    | some r => simp [syntaxGate, ho] at h
  have hwhole : ¬ p.label.damaged = true := by
    intro hd
    simp [syntaxGate, hd] at h
  rw [offender, if_neg hwhole, firstStrayKeyword_eq_find?, List.find?_eq_none] at hnone
  intro hkeyword
  refine hnone q (mem_walk_iff.2 reached) ?_
  rw [isStrayKeyword_eq, examined, Bool.true_and, List.contains_iff_mem]
  exact hkeyword

theorem name_not_mem_clauseKeywords_of_localVariables {source : ByteArray} {p : Place}
    (h : p.syntaxGate source = .ok ()) {o : MethodOutline Token}
    (ho : o ∈ (p.outline source).methodOutlines) {v : Mention Token} (hv : v ∈ o.localVariables) :
    v.name ∉ clauseKeywords := by
  obtain ⟨m, hm, -, rfl⟩ := exists_method_of_mem_outline ho
  rw [localVariables_methodOutline] at hv
  obtain ⟨q, hq, rfl⟩ := List.mem_map.1 hv
  obtain ⟨hq, hkind⟩ := List.mem_filter.1 hq
  have kind : q.kind = .localWrite := by simpa using hkind
  exact not_mem_clauseKeywords_of_syntaxGate h (hm.trans (mem_walk_iff.1 hq))
    (isExamined_iff.2 (.inl kind))

end Place

namespace Grammar

open Place

theorem syntaxGate_of_parse {grammar : Grammar} {source : ByteArray} {top : Place}
    (h : grammar.parse source = .ok top) : top.syntaxGate source = .ok () := by
  unfold Grammar.parse at h
  split at h
  · contradiction
  · split at h
    · contradiction
    · split at h
      · contradiction
      · next hgate =>
        rw [← Except.ok.inj h]
        exact hgate

/-- The search for stray keywords examines the identifiers that are written to or bare,
and so no report has a variable that is spelled like a clause keyword, nor a call that is
a bare name of such a spelling. Where a call has it, the call names its method so. -/
theorem keyword_names_method :
    (∀ p : Place, p.type = "identifier" →
      (p.isExamined = true ↔ p.kind = .localWrite ∨ p.kind = .bareName)) ∧
    (∀ (source : ByteArray) (p : Place), p.firstStrayKeyword source =
      p.walk.find? fun q => q.isExamined && clauseKeywords.contains (q.text source)) ∧
    ∀ (grammar : Grammar) (code : String) (top : Place), grammar.parse code.toUTF8 = .ok top →
      ∃ report, grammar.analyze code = .ok report ∧
        report = (top.outline code.toUTF8).map Token.line? ∧
        (∀ o ∈ report.methodOutlines, ∀ v ∈ o.localVariables, v.name ∉ clauseKeywords) ∧
        ∀ o ∈ (top.outline code.toUTF8).methodOutlines, ∀ c ∈ o.calls,
          (∀ q, q.kind = .bareName → c = ⟨q.text code.toUTF8, some q⟩ →
            c.name ∉ clauseKeywords) ∧
          (c.name ∈ clauseKeywords → ∃ q name, top.Reaches q ∧ q.type = "call" ∧
            q.field? "method" = some name ∧ c = ⟨name.text code.toUTF8, some name⟩) := by
  refine ⟨fun p _ => isExamined_iff, fun source p => firstStrayKeyword_eq_find? source p, ?_⟩
  intro grammar code top hparse
  have hgate := syntaxGate_of_parse hparse
  refine ⟨_, by rw [analyze, hparse]; rfl, rfl, ?_, ?_⟩
  · intro o ho v hv
    rw [Report.methodOutlines_map] at ho
    obtain ⟨located, hlocated, rfl⟩ := List.mem_map.1 ho
    obtain ⟨u, hu, rfl⟩ := List.mem_map.1 hv
    exact name_not_mem_clauseKeywords_of_localVariables hgate hlocated hu
  · intro o ho c hc
    obtain ⟨m, hm, -, rfl⟩ := exists_method_of_mem_outline ho
    have hbare : ∀ q, m.Reaches q → q.kind = .bareName → q.text code.toUTF8 ∉ clauseKeywords :=
      fun q hq kind => not_mem_clauseKeywords_of_syntaxGate hgate (hm.trans hq)
        (isExamined_iff.2 (.inr kind))
    constructor
    · rintro q kind rfl
      have hq : q ∈ m.walk := by
        rw [calls_methodOutline] at hc
        exact (mem_calls_additions kind hc).1
      exact hbare q (mem_walk_iff.1 hq) kind
    · intro hkeyword
      cases callOrigin_of_mem_calls hc with
      | bareName q hq kind => exact absurd hkeyword (hbare q hq kind)
      | call q s hq _ form =>
        obtain ⟨type, name, hname, rfl⟩ := form.of_mem_clauseKeywords hkeyword
        exact ⟨q, name, hm.trans hq, type, hname, rfl⟩

/-- A method that sends `end` to `b`. -/
def sendingSource : String := "def a\n  b.end\nend"

def sendingProgram : Place :=
  .top (plainLabel "program" 0 17 0 0 none)
    [.node (plainLabel "method" 0 17 0 0 none)
      [.node (plainLabel "identifier" 4 5 0 4 (some "name")) [],
       .node (plainLabel "body_statement" 8 13 1 2 (some "body"))
        [.node (plainLabel "call" 8 13 1 2 none)
          [.node (plainLabel "identifier" 8 9 1 2 (some "receiver")) [],
           .node (plainLabel "identifier" 10 13 1 4 (some "method")) []]]]]

theorem keyword_names_method_send :
    (installed fun _ => .ok sendingProgram).parse sendingSource.toUTF8 = .ok sendingProgram ∧
      ∃ o ∈ (sendingProgram.outline sendingSource.toUTF8).methodOutlines, ∃ c ∈ o.calls,
        c.name = "end" ∧ ∃ q name, sendingProgram.Reaches q ∧ q.type = "call" ∧
          q.field? "method" = some name ∧ c = ⟨name.text sendingSource.toUTF8, some name⟩ := by
  have hparse : (installed fun _ => .ok sendingProgram).parse sendingSource.toUTF8 =
      .ok sendingProgram := by
    have hgate : sendingProgram.syntaxGate sendingSource.toUTF8 = .ok () := by decide +kernel
    simp only [Grammar.parse, hgate]
  obtain ⟨o, ho, c, hc, hname⟩ :
      ∃ o ∈ (sendingProgram.outline sendingSource.toUTF8).methodOutlines, ∃ c ∈ o.calls,
        c.name = "end" := by decide +kernel
  have hkeyword : c.name ∈ clauseKeywords := by
    rw [hname]
    decide
  obtain ⟨_, -, -, -, hcalls⟩ := keyword_names_method.2.2 _ _ _ hparse
  exact ⟨hparse, o, ho, c, hc, hname, (hcalls o ho c hc).2 hkeyword⟩

end Grammar

end RubyOutline
