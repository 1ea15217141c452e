import RubyOutline.Proofs.Nesting

/-!
Where the records of an outline come from. Every method that is listed is the outline of
a method definition, and every record in it comes from one place that is walked, which
decides what it says and which token locates it. So what holds of places by their kinds
holds of all records.
-/

namespace RubyOutline

namespace Report

variable {σ τ : Type}

/-- The classes that a report lists. -/
def classOutlines : Report τ → List (ClassOutline τ)
  | classes cs => cs
  | topLevel _ => []

/-- The methods that a report lists, by classes or without them. -/
def methodOutlines : Report τ → List (MethodOutline τ)
  | classes cs => cs.flatMap (·.methods)
  | topLevel ms => ms

theorem methodOutlines_map (f : σ → τ) (r : Report σ) :
    (r.map f).methodOutlines = r.methodOutlines.map (·.map f) := by
  cases r with
  | classes cs => simp [Report.map, methodOutlines, List.flatMap_map, List.map_flatMap,
      ClassOutline.map]
  | topLevel ms => rfl

end Report

/-- Whether a record is that of a bare name, which is located by the name itself. -/
def Mention.isBareName (record : Mention Token) : Bool :=
  record.line.any (·.kind == .bareName)

namespace Place

variable {source : ByteArray}

/-! ### The definitions that are listed -/

theorem exists_class_of_mem_outline {p : Place} {o : ClassOutline Token}
    (h : o ∈ (p.outline source).classOutlines) :
    ∃ c, p.Reaches c ∧ c.type = "class" ∧ o = c.classOutline source := by
  unfold outline at h
  split at h
  · simp [Report.classOutlines] at h
  · obtain ⟨c, hc, rfl⟩ := List.mem_map.1 h
    rw [classDefinitions_eq_classNodes] at hc
    exact ⟨c, (mem_classNodes.1 hc).1, (mem_classNodes.1 hc).2, rfl⟩

theorem exists_method_of_mem_methodOutlines {p : Place} {o : MethodOutline Token}
    (h : o ∈ p.methodOutlines source) :
    ∃ m, p.Reaches m ∧ m.type = "method" ∧ o = m.methodOutline source := by
  obtain ⟨m, hm, rfl⟩ := List.mem_map.1 h
  rw [methodDefinitions_eq_methodNodes] at hm
  exact ⟨m, (mem_methodNodes.1 hm).1, (mem_methodNodes.1 hm).2, rfl⟩

/-- A method that a report lists is reached from the place that is reported, by way of a
class or directly. -/
theorem exists_method_of_mem_outline {p : Place} {o : MethodOutline Token}
    (h : o ∈ (p.outline source).methodOutlines) :
    ∃ m, p.Reaches m ∧ m.type = "method" ∧ o = m.methodOutline source := by
  unfold outline at h
  split at h
  · exact exists_method_of_mem_methodOutlines h
  · obtain ⟨_, hclass, ho⟩ := List.mem_flatMap.1 h
    obtain ⟨c, hc, rfl⟩ := List.mem_map.1 hclass
    rw [classDefinitions_eq_classNodes] at hc
    obtain ⟨m, hm, htype, rfl⟩ := exists_method_of_mem_methodOutlines ho
    exact ⟨m, (mem_classNodes.1 hc).1.trans hm, htype, rfl⟩

/-! ### The lists of a method -/

theorem instanceVariables_methodOutline (p : Place) :
    (p.methodOutline source).instanceVariables =
      (p.walk.filter (·.kind == .instanceWrite)).map fun q => ⟨q.text source, some q⟩ := by
  rw [← filterMap_additions bind_instanceVariable? [], ← findings_eq_additions]
  rfl

theorem localVariables_methodOutline (p : Place) :
    (p.methodOutline source).localVariables =
      (p.walk.filter (·.kind == .localWrite)).map fun q => ⟨q.text source, some q⟩ := by
  rw [← filterMap_additions bind_localVariable? [], ← findings_eq_additions]
  rfl

theorem conditions_methodOutline (p : Place) :
    (p.methodOutline source).conditions =
      (p.walk.filter (·.kind == .conditional)).map fun q =>
        ⟨q.conditionText source, some q⟩ := by
  rw [← filterMap_additions bind_condition? [], ← findings_eq_additions]
  rfl

/-! ### Calls -/

/-- The places that a record among the calls of a method may come from, with the name and
the token of each. -/
inductive CallOrigin (source : ByteArray) (m : Place) : Mention Token → Prop
  | bareName (q : Place) (reached : m.Reaches q) (kind : q.kind = .bareName) :
    CallOrigin source m ⟨q.text source, some q⟩
  | call (q : Place) (s : Selector) (reached : m.Reaches q) (kind : q.kind = .call)
      (form : SelectorForm source q s) : CallOrigin source m ⟨s.name, s.token⟩

theorem exists_mem_of_mem_additions {bound : List String} {ps : List Place} {f : Finding Token}
    (h : f ∈ additions source bound ps) :
    ∃ p ∈ ps, ∃ bound, p.finding? source bound = some f := by
  induction ps generalizing bound with
  | nil => simp at h
  | cons p ps ih =>
    rw [additions_cons, List.mem_append] at h
    rcases h with h | h
    · exact ⟨p, List.mem_cons_self, bound, Option.mem_toList.1 h⟩
    · obtain ⟨q, hq, hf⟩ := ih h
      exact ⟨q, List.mem_cons_of_mem _ hq, hf⟩

/-- Every record among the calls of a method is added by a place that is walked. -/
theorem exists_of_mem_calls {m : Place} {c : Mention Token}
    (h : c ∈ (m.methodOutline source).calls) :
    ∃ q bound, m.Reaches q ∧ (q.finding? source bound).bind Finding.call? = some c := by
  rw [calls_methodOutline] at h
  obtain ⟨f, hf, hc⟩ := List.mem_filterMap.1 h
  obtain ⟨q, hq, bound, hfinding⟩ := exists_mem_of_mem_additions hf
  exact ⟨q, bound, mem_walk_iff.1 hq, by rw [hfinding, Option.bind_some, hc]⟩

theorem callOrigin_of_mem_calls {m : Place} {c : Mention Token}
    (h : c ∈ (m.methodOutline source).calls) : CallOrigin source m c := by
  obtain ⟨q, bound, reached, hc⟩ := exists_of_mem_calls h
  rcases eq_of_bind_call? hc with ⟨kind, -, rfl⟩ | ⟨kind, s, hs, rfl⟩
  · exact .bareName q reached kind
  · exact .call q s reached kind (selectorForm_of_selector kind hs)

theorem isBareName_iff_of_bind_call? {q : Place} {bound : List String} {c : Mention Token}
    (h : (q.finding? source bound).bind Finding.call? = some c) :
    c.isBareName = true ↔ q.kind = .bareName := by
  rcases eq_of_bind_call? h with ⟨kind, -, rfl⟩ | ⟨kind, s, hs, rfl⟩
  · simp [Mention.isBareName, kind]
  · -- A call is located by an operator, a bracket or the name of a method.
    have hfalse : ¬ (⟨s.name, s.token⟩ : Mention Token).isBareName = true := by
      intro hbare
      obtain ⟨t, ht, hkind⟩ := (Option.any_eq_true _ _).1 hbare
      exact kind_ne_bareName_of_selector kind hs ht (by simpa using hkind)
    simp [hfalse, kind]

/-- The records that are located by bare names are those of bare names. -/
theorem isBareName_iff {m : Place} {c : Mention Token} (h : c ∈ (m.methodOutline source).calls) :
    c.isBareName = true ↔
      ∃ q, m.Reaches q ∧ q.kind = .bareName ∧ c = ⟨q.text source, some q⟩ := by
  constructor
  · intro hbare
    obtain ⟨q, bound, reached, hc⟩ := exists_of_mem_calls h
    have kind := (isBareName_iff_of_bind_call? hc).1 hbare
    rcases eq_of_bind_call? hc with ⟨-, -, hc⟩ | ⟨hcall, -⟩
    · exact ⟨q, reached, kind, hc⟩
    · rw [hcall] at kind
      contradiction
  · rintro ⟨q, -, kind, rfl⟩
    simp [Mention.isBareName, kind]

/-! ### Outlines -/

/-- The records of a method are located by the nodes that they stand for. -/
structure MethodLocated (source : ByteArray) (m : Place) (o : MethodOutline Token) : Prop where
  line : o.line = m.field? "name"
  instanceVariables : o.instanceVariables =
    (m.walk.filter (·.kind == .instanceWrite)).map fun q => ⟨q.text source, some q⟩
  localVariables : o.localVariables =
    (m.walk.filter (·.kind == .localWrite)).map fun q => ⟨q.text source, some q⟩
  calls : ∀ c ∈ o.calls, CallOrigin source m c
  conditions : o.conditions =
    (m.walk.filter (·.kind == .conditional)).map fun q => ⟨q.conditionText source, some q⟩

/-- The records of a report are located by the nodes that they stand for. -/
structure ReportLocated (source : ByteArray) (p : Place) (r : Report Token) : Prop where
  classes : ∀ o ∈ r.classOutlines, ∃ c, p.Reaches c ∧ c.type = "class" ∧
    o.name = c.className source ∧ o.line = c.field? "name"
  methods : ∀ o ∈ r.methodOutlines, ∃ m, p.Reaches m ∧ m.type = "method" ∧
    MethodLocated source m o

theorem methodLocated (m : Place) : MethodLocated source m (m.methodOutline source) where
  line := rfl
  instanceVariables := instanceVariables_methodOutline m
  localVariables := localVariables_methodOutline m
  calls _ := callOrigin_of_mem_calls
  conditions := conditions_methodOutline m

theorem reportLocated (p : Place) : ReportLocated source p (p.outline source) where
  classes o ho := by
    obtain ⟨c, hc, htype, rfl⟩ := exists_class_of_mem_outline ho
    exact ⟨c, hc, htype, rfl, rfl⟩
  methods o ho := by
    obtain ⟨m, hm, htype, rfl⟩ := exists_method_of_mem_outline ho
    exact ⟨m, hm, htype, methodLocated m⟩

end Place

end RubyOutline
