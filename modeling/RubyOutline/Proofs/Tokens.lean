import RubyOutline.Proofs.Composition
import RubyOutline.Proofs.Keywords

/-!
The tokens that records are located by. A record of a variable or of a bare name is located
by the name itself, and a record of a call by the operator, bracket or name that the call
holds. A token tells by its kind and its parent which place has recorded it, and a walk comes
to each place once, so no token locates two records.
-/

namespace RubyOutline

/-- The token that a record locates a name by. Conditions are no names. -/
def Finding.nameToken? : Finding Token → Token
  | instanceVariable m => m.line
  | localVariable m => m.line
  | call m => m.line
  | condition _ => none

/-- The tokens of the calls and variables among some lists. -/
def Features.nameTokens (features : Features Token) : List Place :=
  features.calls.filterMap (·.line) ++ features.localVariables.filterMap (·.line) ++
    features.instanceVariables.filterMap (·.line)

theorem Features.nameTokens_ofFindings (found : List (Finding Token)) :
    (Features.ofFindings found).nameTokens =
      found.filterMap (fun f => f.call?.bind (·.line)) ++
        found.filterMap (fun f => f.localVariable?.bind (·.line)) ++
          found.filterMap fun f => f.instanceVariable?.bind (·.line) := by
  simp only [nameTokens, ofFindings, List.filterMap_filterMap]

/-- Sorting findings into lists keeps their tokens. -/
theorem Features.nameTokens_ofFindings_perm (found : List (Finding Token)) :
    (Features.ofFindings found).nameTokens.Perm (found.filterMap Finding.nameToken?) := by
  rw [nameTokens_ofFindings]
  induction found with
  | nil => exact List.Perm.refl _
  | cons f found ih =>
    cases f with
    | condition c => exact ih
    | call m =>
      simp only [List.filterMap_cons, Finding.call?, Finding.localVariable?,
        Finding.instanceVariable?, Finding.nameToken?, Option.bind_some, Option.bind_none]
      cases m.line with
      | none => exact ih
      | some t => exact ih.cons t
    | localVariable m =>
      simp only [List.filterMap_cons, Finding.call?, Finding.localVariable?,
        Finding.instanceVariable?, Finding.nameToken?, Option.bind_some, Option.bind_none]
      cases m.line with
      | none => exact ih
      | some t => exact (List.perm_middle.append_right _).trans (ih.cons t)
    | instanceVariable m =>
      simp only [List.filterMap_cons, Finding.call?, Finding.localVariable?,
        Finding.instanceVariable?, Finding.nameToken?, Option.bind_some, Option.bind_none]
      cases m.line with
      | none => exact ih
      | some t => exact List.perm_middle.trans (ih.cons t)

namespace Place

variable {source : ByteArray}

/-- A name that is recorded itself, as a variable that is written to or as a bare name. -/
def isRecordedName (p : Place) : Bool :=
  p.kind == .bareName || p.kind == .localWrite || p.kind == .instanceWrite

/-- The place whose record a token locates. -/
def recorder? (token : Place) : Option Place :=
  if token.isRecordedName then some token else token.parent?

/-! ### The tokens of calls -/

theorem isTarget_of_kind_eq_write {p : Place}
    (h : p.kind = .localWrite ∨ p.kind = .instanceWrite) : p.isTarget = true := by
  grind [kind, identifierKind]

/-- What a call is located by is one of its children. -/
theorem SelectorForm.mem_nodes {p t : Place} {s : Selector} (h : SelectorForm source p s)
    (ht : s.token = some t) : t ∈ p.nodes := by
  cases h with
  | operator operator _ token =>
    obtain rfl := Option.some.inj ht
    exact mem_nodes_of_field? token
  | index => exact List.mem_of_find?_eq_some ht
  | implicit => contradiction
  | named name _ token =>
    obtain rfl := Option.some.inj ht
    exact mem_nodes_of_field? token

theorem parentType_not_mem_writingTypes {p t : Place} (hp : p.kind = .call) (ht : t ∈ p.nodes) :
    ∃ parent, t.parentType? = some parent ∧ parent ∉ writingTypes := by
  have hcalls : ∀ type ∈ ["binary", "unary", "element_reference", "call"],
      type ∉ writingTypes := by decide
  refine ⟨p.type, ?_, hcalls _ ?_⟩
  · rw [parentType?, parent?_of_mem_nodes ht]
    rfl
  · simpa using type_of_kind_eq_call hp

/-- Nothing that a call is located by is a name that is recorded itself. -/
theorem isRecordedName_eq_false_of_selector {p t : Place} {s : Selector} (hp : p.kind = .call)
    (hs : p.selector source = .ok s) (ht : s.token = some t) : t.isRecordedName = false := by
  have hbare := kind_ne_bareName_of_selector hp hs ht
  have hwrite : ¬ (t.kind = .localWrite ∨ t.kind = .instanceWrite) := by
    intro hkind
    have hmem := (selectorForm_of_selector hp hs).mem_nodes ht
    obtain ⟨parent, hparent, hnot⟩ := parentType_not_mem_writingTypes hp hmem
    obtain ⟨parent', hmem', hparent'⟩ :=
      exists_parentType_of_isTarget (isTarget_of_kind_eq_write hkind)
    rw [hparent] at hparent'
    obtain rfl := Option.some.inj hparent'
    exact hnot hmem'
  rw [not_or] at hwrite
  simp [isRecordedName, hbare, hwrite.1, hwrite.2]

/-- A record is located by the place that has made it, which is a name, or by a child of that
place, which is none. -/
theorem nameToken_cases {bound : List String} {p t : Place} {f : Finding Token}
    (hf : p.finding? source bound = some f) (ht : f.nameToken? = some t) :
    (t = p ∧ t.isRecordedName = true) ∨ (t ∈ p.nodes ∧ t.isRecordedName = false) := by
  have hself : p.kind ∈ [Kind.bareName, .localWrite, .instanceWrite] →
      p.isRecordedName = true := by simp [isRecordedName, or_assoc]
  unfold finding? at hf
  cases hk : p.kind with
  | call =>
    obtain ⟨s, hs⟩ := exists_selector_of_kind_eq_call hk source
    simp only [hk, hs, Option.some.injEq] at hf
    subst hf
    exact .inr ⟨(selectorForm_of_selector hk hs).mem_nodes ht,
      isRecordedName_eq_false_of_selector hk hs ht⟩
  | bareName =>
    by_cases hb : p.text source ∈ bound
    · simp [hk, hb] at hf
    · simp only [hk, List.contains_iff_mem, hb, if_false, Option.some.injEq] at hf
      subst hf
      obtain rfl := Option.some.inj ht
      exact .inl ⟨rfl, hself (by simp [hk])⟩
  | localWrite =>
    simp only [hk, Option.some.injEq] at hf
    subst hf
    obtain rfl := Option.some.inj ht
    exact .inl ⟨rfl, hself (by simp [hk])⟩
  | instanceWrite =>
    simp only [hk, Option.some.injEq] at hf
    subst hf
    obtain rfl := Option.some.inj ht
    exact .inl ⟨rfl, hself (by simp [hk])⟩
  | conditional =>
    simp only [hk, Option.some.injEq] at hf
    subst hf
    contradiction
  | _ => simp [hk] at hf

/-- The token of a record leads back to the place that has made it. -/
theorem recorder?_of_finding? {bound : List String} {p t : Place} {f : Finding Token}
    (hf : p.finding? source bound = some f) (ht : f.nameToken? = some t) :
    t.recorder? = some p := by
  rcases nameToken_cases hf ht with ⟨rfl, hname⟩ | ⟨hchild, hname⟩
  · rw [recorder?, if_pos hname]
  · rw [recorder?, hname, parent?_of_mem_nodes hchild]
    rfl

/-! ### Scans -/

theorem recorders_sublist (bound : List String) (ps : List Place) :
    (((additions source bound ps).filterMap Finding.nameToken?).map recorder?).Sublist
      (ps.map some) := by
  induction ps generalizing bound with
  | nil => exact List.Sublist.refl _
  | cons p ps ih =>
    have htail := ih (p.bind source bound)
    rw [additions_cons, List.filterMap_append, List.map_append, List.map_cons]
    cases hf : p.finding? source bound with
    | none => exact htail.cons _
    | some f =>
      cases ht : f.nameToken? with
      | none =>
        simp only [Option.toList_some, List.filterMap_cons, ht, List.filterMap_nil, List.map_nil,
          List.nil_append]
        exact htail.cons _
      | some t =>
        simp only [Option.toList_some, List.filterMap_cons, ht, List.filterMap_nil, List.map_cons,
          List.map_nil, List.singleton_append, recorder?_of_finding? hf ht]
        exact htail.cons_cons _

theorem nodup_nameTokens (p : Place) : (p.features source).nameTokens.Nodup := by
  have hwalk : (p.walk.map some).Nodup := (nodup_walk p).map (Option.some_injective _)
  have hrecorders : (((additions source [] p.walk).filterMap Finding.nameToken?).map
      recorder?).Nodup := hwalk.sublist (recorders_sublist [] p.walk)
  have htokens := hrecorders.of_map recorder?
  rw [features_eq_ofFindings_additions]
  exact (Features.nameTokens_ofFindings_perm _).nodup_iff.2 htokens

theorem exists_recorder_of_mem_nameTokens {p t : Place}
    (h : t ∈ (p.features source).nameTokens) :
    ∃ q, p.Reaches q ∧
      ((t = q ∧ t.isRecordedName = true) ∨ (t ∈ q.nodes ∧ t.isRecordedName = false)) := by
  rw [features_eq_ofFindings_additions, (Features.nameTokens_ofFindings_perm _).mem_iff] at h
  obtain ⟨f, hf, ht⟩ := List.mem_filterMap.1 h
  obtain ⟨q, hq, bound, hfinding⟩ := exists_mem_of_mem_additions hf
  exact ⟨q, mem_walk_iff.1 hq, nameToken_cases hfinding ht⟩

/-- Tokens stand at or below the place where the scan begins. -/
theorem encloses_of_mem_nameTokens {p t : Place} (h : t ∈ (p.features source).nameTokens) :
    p.Encloses t := by
  obtain ⟨q, hq, ⟨rfl, -⟩ | ⟨hchild, -⟩⟩ := exists_recorder_of_mem_nameTokens h
  · exact hq.encloses
  · exact hq.encloses.trans (encloses_of_mem_nodes hchild)

/-! ### The name of a method -/

theorem isRecordedName_eq_false_of_method {q name : Place} (hq : q.type = "call")
    (hname : q.field? "method" = some name) : name.isRecordedName = false := by
  have hkind : q.kind = .call := by simp [kind, hq]
  have hselector : q.selector .empty = .ok ⟨name.text .empty ++ q.writeSuffix, some name⟩ := by
    simp [selector, callSelector, hq, hname]
  exact isRecordedName_eq_false_of_selector hkind hselector rfl

/-- A call that has the name of its method has no other selector. -/
theorem SelectorForm.eq_of_method {q name : Place} {s : Selector} (h : SelectorForm source q s)
    (hq : q.type = "call") (hname : q.field? "method" = some name) :
    s = ⟨name.text source ++ q.writeSuffix, some name⟩ := by
  cases h with
  | operator operator message _ sent =>
    cases sent with
    | binary type _ => simp [hq] at type
    | unary type _ => simp [hq] at type
  | index type => simp [hq] at type
  | implicit _ token => simp [hname] at token
  | named name' _ token =>
    obtain rfl := Option.some.inj (token.symm.trans hname)
    rfl

theorem line_ne_of_mem_variables {p t : Place} (ht : t.isRecordedName = false)
    {v : Mention Token}
    (hv : v ∈ (p.features source).localVariables ∨ v ∈ (p.features source).instanceVariables) :
    v.line ≠ some t := by
  intro hline
  have hrecorded : t.isRecordedName = true := by
    rcases hv with hv | hv
    · have hlist : (p.features source).localVariables = _ := localVariables_methodOutline p
      rw [hlist] at hv
      obtain ⟨q, hq, rfl⟩ := List.mem_map.1 hv
      obtain rfl := Option.some.inj hline
      simp [isRecordedName, (List.mem_filter.1 hq).2]
    · have hlist : (p.features source).instanceVariables = _ := instanceVariables_methodOutline p
      rw [hlist] at hv
      obtain ⟨q, hq, rfl⟩ := List.mem_map.1 hv
      obtain rfl := Option.some.inj hline
      simp [isRecordedName, (List.mem_filter.1 hq).2]
  simp [ht] at hrecorded

theorem eq_of_mem_calls_of_method {p q name : Place} (hq : q.type = "call")
    (hname : q.field? "method" = some name) {c : Mention Token}
    (hc : c ∈ (p.features source).calls) (hline : c.line = some name) :
    c = ⟨name.text source ++ q.writeSuffix, some name⟩ := by
  have hnot := isRecordedName_eq_false_of_method hq hname
  have horigin : CallOrigin source p c := callOrigin_of_mem_calls hc
  cases horigin with
  | bareName r _ kind =>
    obtain rfl := Option.some.inj hline
    simp [isRecordedName, kind] at hnot
  | call r s _ _ form =>
    -- The token has one parent, so the record is that of the call itself.
    have hr := parent?_of_mem_nodes (form.mem_nodes hline)
    have hparent := parent?_of_mem_nodes (mem_nodes_of_field? hname)
    obtain rfl : r = q := Option.some.inj (hr.symm.trans hparent)
    rw [form.eq_of_method hq hname]

/-- The calls and variables that a scan records are located by different nodes, in whatever
tree. In particular the name of the method in a call locates no variable, and if it locates
a call, then this call. -/
theorem addresses_nodup (source : ByteArray) (p : Place) :
    ((p.features source).nameTokens.map address).Nodup ∧
      ∀ q name : Place, q.type = "call" → q.field? "method" = some name →
        (∀ v ∈ (p.features source).localVariables, v.line ≠ some name) ∧
        (∀ v ∈ (p.features source).instanceVariables, v.line ≠ some name) ∧
        ∀ c ∈ (p.features source).calls, c.line = some name →
          c = ⟨name.text source ++ q.writeSuffix, some name⟩ := by
  constructor
  · apply (nodup_nameTokens p).map_on
    intro a ha b hb h
    exact eq_of_address_eq (encloses_of_mem_nameTokens ha) (encloses_of_mem_nameTokens hb) h
  · intro q name hq hname
    have hnot := isRecordedName_eq_false_of_method hq hname
    exact ⟨fun v hv => line_ne_of_mem_variables hnot (.inl hv),
      fun v hv => line_ne_of_mem_variables hnot (.inr hv),
      fun c hc hline => eq_of_mem_calls_of_method hq hname hc hline⟩

/-- A call that names its method and nothing else. -/
def lonelyCall : Place :=
  .top (plainLabel "call" 0 3 0 0 none)
    [.node (plainLabel "identifier" 0 3 0 0 (some "method")) []]

def lonelyName : Place :=
  .inside lonelyCall 0 (plainLabel "identifier" 0 3 0 0 (some "method")) []

theorem addresses_nodup_lonelyCall :
    lonelyCall.type = "call" ∧ lonelyCall.field? "method" = some lonelyName ∧
      (lonelyCall.features "run".toUTF8).nameTokens.map address = [[0]] ∧
      ∀ c ∈ (lonelyCall.features "run".toUTF8).calls, c.line = some lonelyName →
        c = ⟨lonelyName.text "run".toUTF8 ++ lonelyCall.writeSuffix, some lonelyName⟩ := by
  have hname : lonelyCall.field? "method" = some lonelyName := rfl
  have hcalls := (addresses_nodup "run".toUTF8 lonelyCall).2 lonelyCall lonelyName rfl hname
  exact ⟨rfl, hname, by decide +kernel, hcalls.2.2⟩

end Place

end RubyOutline
