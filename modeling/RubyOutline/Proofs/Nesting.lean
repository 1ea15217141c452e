import RubyOutline.Proofs.Census
import RubyOutline.Proofs.Scan

/-!
Methods inside methods. The scan of a method passes through the methods inside
it and takes in what they show, but it comes to them with names that are bound
already, where a scan of the inner method begins with none. What this changes is
settled here: nothing but bare names that are calls for the inner method and
variables for the outer one.
-/

namespace RubyOutline

namespace Place

variable {source : ByteArray}

/-! ### Bare names and their records -/

theorem isMethodName_of_field? {p q : Place} (hp : p.type = "call")
    (hq : p.field? "method" = some q) : q.isMethodName = true := by
  have hparent := parent?_of_mem_nodes (mem_nodes_of_field? hq)
  simp [isMethodName, fills, hparent, hp, hq]

/-- No call is located by a bare name. -/
theorem kind_ne_bareName_of_selector {p q : Place} {s : Selector} (hp : p.kind = .call)
    (hs : p.selector source = .ok s) (hq : s.token = some q) : q.kind ≠ .bareName := by
  intro hbare
  obtain ⟨hident, -, -, hname⟩ := kind_eq_bareName_iff.1 hbare
  cases selectorForm_of_selector hp hs with
  | operator operator message _ sent =>
    obtain rfl := Option.some.inj hq
    exact sent.type_ne_identifier hident
  | index =>
    have hbracket : q.type = "[" := by simpa using List.find?_some hq
    rw [hident] at hbracket
    contradiction
  | implicit => contradiction
  | named name type token =>
    obtain rfl := Option.some.inj hq
    rw [isMethodName_of_field? type token] at hname
    contradiction

/-- The record of a bare name comes from that name, where its text is not bound. -/
theorem bind_call?_bareName {bound : List String} {p q : Place} {name : String}
    (hq : q.kind = .bareName)
    (h : (p.finding? source bound).bind Finding.call? = some ⟨name, some q⟩) :
    p = q ∧ q.text source ∉ bound := by
  rcases eq_of_bind_call? h with ⟨-, hb, hc⟩ | ⟨hp, s, hs, hc⟩
  · simp only [Mention.mk.injEq, Option.some.injEq] at hc
    obtain ⟨-, rfl⟩ := hc
    exact ⟨rfl, hb⟩
  · simp only [Mention.mk.injEq] at hc
    exact absurd hq (kind_ne_bareName_of_selector hp hs hc.2.symm)

theorem mem_calls_additions {bound : List String} {ps : List Place} {name : String} {q : Place}
    (hq : q.kind = .bareName)
    (h : ⟨name, some q⟩ ∈ (additions source bound ps).filterMap Finding.call?) :
    q ∈ ps ∧ q.text source ∉ bound := by
  induction ps generalizing bound with
  | nil => simp at h
  | cons p ps ih =>
    rw [additions_cons, List.filterMap_append, List.mem_append, filterMap_toList] at h
    rcases h with h | h
    · obtain ⟨rfl, hbound⟩ := bind_call?_bareName hq (Option.mem_toList.1 h)
      exact ⟨List.mem_cons_self, hbound⟩
    · obtain ⟨hmem, hbound⟩ := ih h
      exact ⟨List.mem_cons_of_mem _ hmem, fun hb => hbound (mem_bind.2 (.inl hb))⟩

/-- Names bound in addition change nothing if no bare name that is recorded without
them is one of them. -/
theorem additions_eq_of_subset {bound bound' : List String} {ps : List Place}
    (hsub : ∀ name ∈ bound, name ∈ bound')
    (hfree : ∀ q, q.kind = .bareName →
      ⟨q.text source, some q⟩ ∈ (additions source bound ps).filterMap Finding.call? →
        q.text source ∉ bound') :
    additions source bound' ps = additions source bound ps := by
  induction ps generalizing bound bound' with
  | nil => rfl
  | cons p ps ih =>
    have hhead : p.finding? source bound' = p.finding? source bound := by
      refine finding?_congr fun hp => ⟨fun hmem => ?_, hsub _⟩
      by_contra hb
      refine hfree p hp ?_ hmem
      simp [additions_cons, finding?, hp, hb, Finding.call?]
    have htail : additions source (p.bind source bound') ps =
        additions source (p.bind source bound) ps := by
      refine ih (fun name hname => ?_) (fun q hq hmem => ?_)
      · exact mem_bind.2 ((mem_bind.1 hname).imp_left (hsub name))
      · -- What `p` binds is bound for both scans, so a recorded name is spelled differently.
        have hbound := (mem_calls_additions hq hmem).2
        have hfree := hfree q hq (by
          rw [additions_cons, List.filterMap_append]
          exact List.mem_append_right _ hmem)
        rw [mem_bind, not_or] at hbound ⊢
        exact ⟨hfree, hbound.2⟩
    rw [additions_cons, additions_cons, hhead, htail]

/-! ### Inner and outer lists -/

/-- A bare name that the scan of an inner place records as a call, while a place that
the scan of an outer place passes before binds a variable of that name. -/
def Captures (source : ByteArray) (outer inner : Place) : Prop :=
  ∃ before after, outer.walk = before ++ inner.walk ++ after ∧
    ∃ q, q.kind = .bareName ∧ ⟨q.text source, some q⟩ ∈ (inner.methodOutline source).calls ∧
      ∃ r ∈ before, (r.kind = .localWrite ∨ r.kind = .parameter) ∧
        r.text source = q.text source

theorem calls_methodOutline (p : Place) :
    (p.methodOutline source).calls = (additions source [] p.walk).filterMap Finding.call? := by
  rw [← findings_eq_additions]
  rfl

theorem calls_append {outer inner : Place} {before after : List Place}
    (h : outer.walk = before ++ inner.walk ++ after) :
    (outer.methodOutline source).calls =
      (additions source [] before).filterMap Finding.call? ++
        (additions source (before.foldl (bind source) []) inner.walk).filterMap Finding.call? ++
          (additions source ((before ++ inner.walk).foldl (bind source) []) after).filterMap
            Finding.call? := by
  rw [calls_methodOutline, h, additions_append, additions_append, List.filterMap_append,
    List.filterMap_append]

/-- A captured name has a record in the inner list and none in the outer one. -/
theorem Captures.exists_not_mem {outer inner : Place} (h : Captures source outer inner) :
    ∃ record ∈ (inner.methodOutline source).calls,
      record ∉ (outer.methodOutline source).calls := by
  obtain ⟨before, after, hwalk, q, hq, hmem, r, hr, hkind, htext⟩ := h
  refine ⟨_, hmem, fun hout => ?_⟩
  have hqi : q ∈ inner.walk := by
    rw [calls_methodOutline] at hmem
    exact (mem_calls_additions hq hmem).1
  have hnodup := nodup_walk outer
  rw [hwalk] at hnodup
  rw [calls_append hwalk, List.mem_append, List.mem_append] at hout
  -- A place is walked once, so its record can only come from the stretch of the inner walk.
  rcases hout with (hout | hout) | hout
  · have hqb := (mem_calls_additions hq hout).1
    exact (List.nodup_append.1 (List.nodup_append.1 hnodup).1).2.2 q hqb q hqi rfl
  · have hbound := (mem_calls_additions hq hout).2
    exact hbound (mem_foldl_bind_nil.2 ⟨r, hr, boundName?_eq_some_iff.2 ⟨hkind, htext⟩⟩)
  · have hqa := (mem_calls_additions hq hout).1
    exact (List.nodup_append.1 hnodup).2.2 q (List.mem_append_right _ hqi) q hqa rfl

theorem calls_infix_of_not_captures {outer inner : Place} (h : outer.Reaches inner)
    (hfree : ¬ Captures source outer inner) :
    (inner.methodOutline source).calls <:+: (outer.methodOutline source).calls := by
  obtain ⟨before, after, hwalk⟩ := walk_infix_of_mem (mem_walk_iff.2 h)
  have hsame : additions source (before.foldl (bind source) []) inner.walk =
      additions source [] inner.walk := by
    refine additions_eq_of_subset (by simp) fun q hq hmem hbound => hfree ?_
    rw [← calls_methodOutline] at hmem
    obtain ⟨r, hr, hname⟩ := mem_foldl_bind_nil.1 hbound
    obtain ⟨hkind, htext⟩ := boundName?_eq_some_iff.1 hname
    exact ⟨before, after, hwalk.symm, q, hq, hmem, r, hr, hkind, htext⟩
  rw [calls_append hwalk.symm, hsame, ← calls_methodOutline inner]
  exact List.infix_append _ _ _

theorem calls_infix_iff {outer inner : Place} (h : outer.Reaches inner) :
    (inner.methodOutline source).calls <:+: (outer.methodOutline source).calls ↔
      ¬ Captures source outer inner := by
  refine ⟨fun hpart hcaptures => ?_, calls_infix_of_not_captures h⟩
  obtain ⟨record, hinner, houter⟩ := hcaptures.exists_not_mem
  exact houter (hpart.subset hinner)

theorem filterMap_findings_part {α : Type} {select : Finding Token → Option α} {kind : Kind}
    {record : Place → α}
    (hselect : ∀ bound p, (p.finding? source bound).bind select =
      if p.kind = kind then some (record p) else none)
    {outer inner : Place} (h : outer.Reaches inner) :
    (findings source inner).filterMap select <:+: (findings source outer).filterMap select := by
  rw [findings_eq_additions, findings_eq_additions, filterMap_additions hselect,
    filterMap_additions hselect]
  exact ((walk_infix_of_mem (mem_walk_iff.2 h)).filter _).map _

/-- What the record of a method shows of a method inside it. Variables and conditions
of the inner one stand in the outer lists as one stretch. So do its calls, unless the
outer scan captures one of them; then they do not, where records are told apart by
the nodes that they stand for. -/
theorem nested_method_lists (source : ByteArray) {outer inner : Place} (h : outer.Reaches inner) :
    (inner.methodRecord source).instanceVariables <:+:
        (outer.methodRecord source).instanceVariables ∧
      (inner.methodRecord source).localVariables <:+:
        (outer.methodRecord source).localVariables ∧
      (inner.methodRecord source).conditions <:+: (outer.methodRecord source).conditions ∧
      (¬ Captures source outer inner →
        (inner.methodRecord source).calls <:+: (outer.methodRecord source).calls) ∧
      ((inner.methodOutline source).calls <:+: (outer.methodOutline source).calls ↔
        ¬ Captures source outer inner) :=
  ⟨(filterMap_findings_part bind_instanceVariable? h).map _,
    (filterMap_findings_part bind_localVariable? h).map _,
    (filterMap_findings_part bind_condition? h).map _,
    fun hfree => (calls_infix_of_not_captures h hfree).map _,
    calls_infix_iff h⟩

/-! ### A captured call -/

/-- A method that binds `x`, around a method that sends `x`. -/
def shadowingSource : ByteArray := "def a\n  x = 1\n  def b\n    x\n  end\nend\n".toUTF8

/-- What is stated of a named node in a source without errors. -/
def plainLabel (type : String) (start stop row column : Nat) (field : Option String) : Label :=
  ⟨type, ⟨start, stop⟩, some [.whole row, .whole column], field, true, false, false, false⟩

def shadowedChildren : List Tree :=
  [.node (plainLabel "identifier" 20 21 2 6 (some "name")) [],
   .node (plainLabel "body_statement" 26 27 3 4 (some "body"))
    [.node (plainLabel "identifier" 26 27 3 4 none) []]]

def shadowingStatements : List Tree :=
  [.node (plainLabel "assignment" 8 13 1 2 none)
    [.node (plainLabel "identifier" 8 9 1 2 (some "left")) [],
     .node (plainLabel "integer" 12 13 1 6 (some "right")) []],
   .node (plainLabel "method" 16 33 2 2 none) shadowedChildren]

def shadowingMethod : Place :=
  .top (plainLabel "method" 0 37 0 0 none)
    [.node (plainLabel "identifier" 4 5 0 4 (some "name")) [],
     .node (plainLabel "body_statement" 8 33 1 2 (some "body")) shadowingStatements]

def shadowingBody : Place :=
  .inside shadowingMethod 1 (plainLabel "body_statement" 8 33 1 2 (some "body"))
    shadowingStatements

def shadowedMethod : Place :=
  .inside shadowingBody 1 (plainLabel "method" 16 33 2 2 none) shadowedChildren

theorem shadowingMethod_reaches : shadowingMethod.Reaches shadowedMethod := by
  have hbody : shadowingBody ∈ shadowingMethod.namedNodes :=
    mem_namedNodes.2 ⟨List.mem_cons_of_mem _ List.mem_cons_self, rfl⟩
  have hinner : shadowedMethod ∈ shadowingBody.namedNodes :=
    mem_namedNodes.2 ⟨List.mem_cons_of_mem _ List.mem_cons_self, rfl⟩
  exact ⟨rfl, (Relation.ReflTransGen.single hbody).tail hinner⟩

theorem nested_method_lists_shadowing :
    shadowingMethod.Reaches shadowedMethod ∧
      (shadowedMethod.methodRecord shadowingSource).localVariables <:+:
        (shadowingMethod.methodRecord shadowingSource).localVariables ∧
      Captures shadowingSource shadowingMethod shadowedMethod := by
  have h := nested_method_lists shadowingSource shadowingMethod_reaches
  refine ⟨shadowingMethod_reaches, h.2.1, ?_⟩
  by_contra hfree
  exact absurd (h.2.2.2.1 hfree) (by decide +kernel)

/-- The call stands in the record of the inner method and not in that of the outer one. -/
theorem calls_not_infix_of_shadowing :
    shadowingMethod.type = "method" ∧ shadowedMethod.type = "method" ∧
      shadowingMethod.Reaches shadowedMethod ∧ shadowingMethod ∈ shadowedMethod.ancestors ∧
      ¬ (shadowedMethod.methodRecord shadowingSource).calls <:+:
        (shadowingMethod.methodRecord shadowingSource).calls := by
  refine ⟨rfl, rfl, shadowingMethod_reaches, ?_, by decide +kernel⟩
  exact List.mem_cons_of_mem _ List.mem_cons_self

end Place

end RubyOutline
