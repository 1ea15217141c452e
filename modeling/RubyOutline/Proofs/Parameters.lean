import RubyOutline.Proofs.Keywords

/-!
Parameters and the names that they bind. The arguments of a method are read off its parameter
list through fields, while a scan binds the identifiers that stand as parameters wherever it
meets them. Both see the same names: what an argument is listed by is bound once the scan has
passed the parameter, and so are the names inside a destructured one. What is bound stays
bound, so a bare name of that spelling is no call from there on.
-/

namespace RubyOutline

/-- The scan that has passed some places and begun with nothing bound. -/
def Scan.past (source : ByteArray) (passed : List Place) : Scan :=
  passed.foldl (Scan.visit source) Scan.start

namespace Place

variable {source : ByteArray}

/-! ### What is bound -/

/-- A bare name that is bound leaves no trace in a scan. -/
theorem visit_eq_self_of_bareName {scan : Scan} {b : Place} (kind : b.kind = .bareName)
    (h : b.text source ∈ scan.bound) : scan.visit source b = scan := by
  have hname : b.boundName? source = none := by simp [boundName?, kind]
  have hfinding : b.finding? source scan.bound = none := by simp [finding?, kind, h]
  rw [Scan.visit, hname, hfinding]

theorem bound_foldl_visit (scan : Scan) (ps : List Place) :
    (ps.foldl (Scan.visit source) scan).bound = ps.foldl (bind source) scan.bound := by
  induction ps generalizing scan with
  | nil => rfl
  | cons p ps ih => exact ih (scan.visit source p)

theorem mem_bound_past {passed : List Place} {n : Place} (hn : n ∈ passed)
    (kind : n.kind = .parameter) : n.text source ∈ (Scan.past source passed).bound := by
  rw [Scan.past, bound_foldl_visit]
  exact mem_foldl_bind_nil.2 ⟨n, hn, boundName?_eq_some_iff.2 ⟨.inr kind, rfl⟩⟩

theorem cover_start (m : Place) : Scan.start.cover source m = Scan.past source m.walk := by
  rw [Scan.cover, foldWalk_eq_foldl, Scan.past]

/-- Once the scan of a method has passed a stretch of its walk, a name is bound: no bare name
that is spelled so changes anything behind it, and none has a record. -/
structure BoundBehind (source : ByteArray) (m : Place) (stretch : List Place) (name : String) :
    Prop where
  bound : ∀ before after, m.walk = before ++ stretch ++ after →
    name ∈ (Scan.past source (before ++ stretch)).bound
  silent : ∀ before between b after, m.walk = before ++ stretch ++ between ++ b :: after →
    b.kind = .bareName → b.text source = name →
      (Scan.past source (before ++ stretch ++ between)).visit source b =
        Scan.past source (before ++ stretch ++ between)
  unrecorded : ∀ before between b after, m.walk = before ++ stretch ++ between ++ b :: after →
    b.kind = .bareName → b.text source = name →
      ∀ c ∈ (m.methodOutline source).calls, c.line ≠ some b

theorem line_ne_of_mem_bound {m b : Place} {front after : List Place}
    (hwalk : m.walk = front ++ b :: after) (kind : b.kind = .bareName)
    (hbound : b.text source ∈ (Scan.past source front).bound) :
    ∀ c ∈ (m.methodOutline source).calls, c.line ≠ some b := by
  intro c hc hline
  have hbare : c.isBareName = true := by simp [Mention.isBareName, hline, kind]
  obtain ⟨q, -, -, rfl⟩ := (isBareName_iff hc).1 hbare
  obtain rfl : q = b := Option.some.inj hline
  have hnodup := nodup_walk m
  rw [hwalk] at hnodup
  rw [calls_methodOutline, hwalk, additions_append, List.filterMap_append, List.mem_append] at hc
  rcases hc with hc | hc
  · -- The walk comes to the name once, so no record of it is made earlier.
    have hmem := (mem_calls_additions kind hc).1
    exact (List.nodup_append.1 hnodup).2.2 q hmem q List.mem_cons_self rfl
  · have hfree := (mem_calls_additions kind hc).2
    rw [Scan.past, bound_foldl_visit] at hbound
    exact hfree hbound

theorem boundBehind_of_mem (m : Place) {stretch : List Place} {n : Place} (hn : n ∈ stretch)
    (kind : n.kind = .parameter) : BoundBehind source m stretch (n.text source) where
  bound before after _ := mem_bound_past (List.mem_append_right before hn) kind
  silent before between b after _ bare htext := by
    apply visit_eq_self_of_bareName bare
    rw [htext]
    exact mem_bound_past (List.mem_append_left _ (List.mem_append_right before hn)) kind
  unrecorded before between b after hwalk bare htext := by
    apply line_ne_of_mem_bound hwalk bare
    rw [htext]
    exact mem_bound_past (List.mem_append_left _ (List.mem_append_right before hn)) kind

/-! ### The identifiers that are parameters -/

theorem kind_eq_parameter_iff {p : Place} :
    p.kind = .parameter ↔ p.type = "identifier" ∧ p.isParameter = true := by
  constructor
  · intro h
    have ht : p.type = "identifier" := by
      revert h
      fun_cases kind p <;> simp_all
    rw [kind_of_identifier ht] at h
    exact ⟨ht, by grind [identifierKind]⟩
  · rintro ⟨ht, hp⟩
    have hw : p.isTarget = false := by
      by_contra hw
      have := (not_isParameter_of_isTarget (Bool.eq_true_of_not_eq_false hw)).1
      rw [hp] at this
      contradiction
    simp [kind_of_identifier ht, identifierKind, hw, hp]

theorem kind_of_mem_parameterList {list n : Place} (type : list.type ∈ parameterListTypes)
    (hn : n ∈ list.nodes) (identifier : n.type = "identifier") : n.kind = .parameter := by
  refine kind_eq_parameter_iff.2 ⟨identifier, ?_⟩
  simp [isParameter, parent?_of_mem_nodes hn, type]

theorem kind_of_name_field {q n : Place} (type : q.type ∈ namedParameterTypes)
    (field : q.field? "name" = some n) (identifier : n.type = "identifier") :
    n.kind = .parameter := by
  refine kind_eq_parameter_iff.2 ⟨identifier, ?_⟩
  have hn := mem_nodes_of_field? field
  have hfills := (fills_iff hn "name").2 field
  simp [isParameter, parent?_of_mem_nodes hn, type, hfills]

/-- The identifier that a parameter is known by: the parameter itself, or its name. -/
inductive IsKnownBy (q : Place) : Place → Prop
  | itself (identifier : q.type = "identifier") : IsKnownBy q q
  | name {n : Place} (type : q.type ∈ namedParameterTypes) (field : q.field? "name" = some n)
      (named : n.label.named = true) (identifier : n.type = "identifier") : IsKnownBy q n

namespace IsKnownBy

variable {q n : Place}

theorem argumentName_eq (h : IsKnownBy q n) : q.argumentName source = n.text source := by
  cases h with
  | itself identifier => simp [argumentName, identifier]
  | name type field =>
    have hother : ∀ t ∈ namedParameterTypes, t ≠ "identifier" ∧ t ≠ "destructured_parameter" := by
      decide
    simp [argumentName, hother _ type, field]

theorem mem_walk (h : IsKnownBy q n) (hq : q.label.named = true) : n ∈ q.walk := by
  cases h with
  | itself => exact mem_walk_iff.2 ⟨hq, Relation.ReflTransGen.refl⟩
  | name _ field named =>
    have hchild : n ∈ q.namedNodes := mem_namedNodes.2 ⟨mem_nodes_of_field? field, named⟩
    exact mem_walk_iff.2 ⟨hq, Relation.ReflTransGen.single hchild⟩

theorem kind_eq {list : Place} (h : IsKnownBy q n) (type : list.type ∈ parameterListTypes)
    (hq : q ∈ list.nodes) : n.kind = .parameter := by
  cases h with
  | itself identifier => exact kind_of_mem_parameterList type hq identifier
  | name type field _ identifier => exact kind_of_name_field type field identifier

end IsKnownBy

/-! ### Arguments -/

theorem reaches_field {m q : Place} {name : String} (h : m.field? name = some q)
    (hm : m.label.named = true) (hq : q.label.named = true) : m.Reaches q :=
  ⟨hm, Relation.ReflTransGen.single (mem_namedNodes.2 ⟨mem_nodes_of_field? h, hq⟩)⟩

/-- The arguments of a method are its parameters one by one, comments left out. What a parameter
is listed by, if it is known by an identifier, is bound behind the parameter and indeed behind
that identifier, and the identifiers of a destructured parameter are bound behind themselves,
however deep they stand. The scan of the method comes to all of them. -/
theorem arguments_bound (source : ByteArray) {m parameters : Place}
    (field : m.field? "parameters" = some parameters)
    (type : parameters.type = "method_parameters") (named : parameters.label.named = true) :
    (m.methodOutline source).arguments =
        (parameters.namedNodes.filter (·.type != "comment")).map (argumentName source) ∧
      (∀ q ∈ parameters.namedNodes, q.type ≠ "comment" → ∀ n, IsKnownBy q n →
        q.argumentName source = n.text source ∧ n ∈ q.walk ∧
          BoundBehind source m q.walk (q.argumentName source) ∧
          BoundBehind source m [n] (q.argumentName source)) ∧
      (∀ d n, parameters.Reaches d → d.type = "destructured_parameter" → n ∈ d.namedNodes →
        n.type = "identifier" → BoundBehind source m [n] (n.text source)) ∧
      Scan.start.cover source m = Scan.past source m.walk ∧
      (m.label.named = true → ∀ q, parameters.Reaches q →
        ∃ before after, m.walk = before ++ q.walk ++ after) := by
  refine ⟨?_, fun q hq _ n hn => ?_, fun d n _ hd hn identifier => ?_, cover_start m,
    fun hm q hq => ?_⟩
  · show m.argumentNames source = _
    rw [argumentNames, field]
    rfl
  · obtain ⟨hchild, hnamed⟩ := mem_namedNodes.1 hq
    have hlist : parameters.type ∈ parameterListTypes := by
      rw [type]
      decide
    have kind := hn.kind_eq hlist hchild
    rw [hn.argumentName_eq]
    exact ⟨rfl, hn.mem_walk hnamed, boundBehind_of_mem m (hn.mem_walk hnamed) kind,
      boundBehind_of_mem m List.mem_cons_self kind⟩
  · have hlist : d.type ∈ parameterListTypes := by
      rw [hd]
      decide
    apply boundBehind_of_mem m List.mem_cons_self
    exact kind_of_mem_parameterList hlist (mem_namedNodes.1 hn).1 identifier
  · have hwalk := mem_walk_iff.2 ((reaches_field field hm named).trans hq)
    obtain ⟨before, after, h⟩ := walk_infix_of_mem hwalk
    exact ⟨before, after, h.symm⟩

/-- A method with a destructured parameter inside another one, and a default. -/
def destructuringSource : ByteArray := "def m((a, (b)), c = 1)\n  b\n  x\nend".toUTF8

def innerNames : List Tree := [.node (plainLabel "identifier" 11 12 0 11 none) []]

def outerNames : List Tree :=
  [.node (plainLabel "identifier" 7 8 0 7 none) [],
   .node (plainLabel "destructured_parameter" 10 13 0 10 none) innerNames]

def defaultParts : List Tree :=
  [.node (plainLabel "identifier" 16 17 0 16 (some "name")) [],
   .node (plainLabel "integer" 20 21 0 20 (some "value")) []]

def destructuringList : List Tree :=
  [.node (plainLabel "destructured_parameter" 6 14 0 6 none) outerNames,
   .node (plainLabel "optional_parameter" 16 21 0 16 none) defaultParts]

def destructuringMethod : Place :=
  .top (plainLabel "method" 0 34 0 0 none)
    [.node (plainLabel "identifier" 4 5 0 4 (some "name")) [],
     .node (plainLabel "method_parameters" 5 22 0 5 (some "parameters")) destructuringList,
     .node (plainLabel "body_statement" 25 30 1 2 (some "body"))
      [.node (plainLabel "identifier" 25 26 1 2 none) [],
       .node (plainLabel "identifier" 29 30 2 2 none) []]]

def destructuringParameters : Place :=
  .inside destructuringMethod 1 (plainLabel "method_parameters" 5 22 0 5 (some "parameters"))
    destructuringList

def outerParameter : Place :=
  .inside destructuringParameters 0 (plainLabel "destructured_parameter" 6 14 0 6 none) outerNames

def innerParameter : Place :=
  .inside outerParameter 1 (plainLabel "destructured_parameter" 10 13 0 10 none) innerNames

def innerName : Place := .inside innerParameter 0 (plainLabel "identifier" 11 12 0 11 none) []

def defaultParameter : Place :=
  .inside destructuringParameters 1 (plainLabel "optional_parameter" 16 21 0 16 none) defaultParts

def defaultName : Place :=
  .inside defaultParameter 0 (plainLabel "identifier" 16 17 0 16 (some "name")) []

/-- The inner `b` is bound, so that only `x` is a call. -/
theorem arguments_bound_destructuring :
    destructuringMethod.field? "parameters" = some destructuringParameters ∧
      destructuringParameters.type = "method_parameters" ∧
      destructuringParameters.label.named = true ∧
      (destructuringMethod.methodOutline destructuringSource).arguments = ["(a, (b))", "c"] ∧
      BoundBehind destructuringSource destructuringMethod [innerName] "b" ∧
      BoundBehind destructuringSource destructuringMethod defaultParameter.walk "c" ∧
      (destructuringMethod.methodRecord destructuringSource).calls = [⟨"x", some 3⟩] := by
  have hfield : destructuringMethod.field? "parameters" = some destructuringParameters := rfl
  obtain ⟨harguments, hknown, hinner, -, -⟩ := arguments_bound destructuringSource hfield rfl rfl
  have houter : outerParameter ∈ destructuringParameters.namedNodes :=
    mem_namedNodes.2 ⟨List.mem_cons_self, rfl⟩
  have hnested : innerParameter ∈ outerParameter.namedNodes :=
    mem_namedNodes.2 ⟨List.mem_cons_of_mem _ List.mem_cons_self, rfl⟩
  have hreached : destructuringParameters.Reaches innerParameter :=
    ⟨rfl, (Relation.ReflTransGen.single houter).tail hnested⟩
  have hname : innerName ∈ innerParameter.namedNodes :=
    mem_namedNodes.2 ⟨List.mem_cons_self, rfl⟩
  have hdefault : defaultParameter ∈ destructuringParameters.namedNodes :=
    mem_namedNodes.2 ⟨List.mem_cons_of_mem _ List.mem_cons_self, rfl⟩
  have hdefaultName : IsKnownBy defaultParameter defaultName := .name (by decide) rfl rfl rfl
  have hb := hinner innerParameter innerName hreached rfl hname rfl
  have hc := (hknown defaultParameter hdefault (by decide) defaultName hdefaultName).2.2.1
  have hbtext : innerName.text destructuringSource = "b" := by decide +kernel
  have hctext : defaultParameter.argumentName destructuringSource = "c" := by decide +kernel
  rw [hbtext] at hb
  rw [hctext] at hc
  refine ⟨hfield, rfl, rfl, ?_, hb, hc, by decide +kernel⟩
  rw [harguments]
  decide +kernel

end Place

end RubyOutline
