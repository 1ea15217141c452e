import RubyOutline.Proofs.Origin

/-!
Scans inside scans. The lists of an outer scan fall into three stretches: what is recorded
before the scan comes to an inner place, what is recorded of that place, and what is
recorded after. The stretch in the middle is what a scan of the inner place would record
by itself, but for the calls of bare names that are bound before.
-/

namespace RubyOutline

namespace Features

variable {τ : Type}

def append (a b : Features τ) : Features τ where
  instanceVariables := a.instanceVariables ++ b.instanceVariables
  localVariables := a.localVariables ++ b.localVariables
  calls := a.calls ++ b.calls
  conditions := a.conditions ++ b.conditions

instance : Append (Features τ) := ⟨append⟩

/-- The same lists with those calls only that satisfy a test. -/
def filterCalls (keep : Mention τ → Bool) (features : Features τ) : Features τ :=
  { features with calls := features.calls.filter keep }

theorem map_append {σ : Type} (f : σ → τ) (a b : Features σ) :
    (a ++ b).map f = a.map f ++ b.map f := by
  change (a.append b).map f = (a.map f).append (b.map f)
  simp [map, append]

theorem ofFindings_append (found found' : List (Finding τ)) :
    ofFindings (found ++ found') = ofFindings found ++ ofFindings found' := by
  change _ = (ofFindings found).append (ofFindings found')
  simp [ofFindings, append]

end Features

namespace Place

variable {source : ByteArray}

/-- Whether one of some places is a parameter or a written variable of a name. -/
def bindName (source : ByteArray) (earlier : List Place) (name : String) : Bool :=
  earlier.any fun q => (q.kind == .localWrite || q.kind == .parameter) && q.text source == name

/-- Whether a record is that of a bare name, and one of some places binds its name. -/
def isCapturedBy (source : ByteArray) (earlier : List Place) (record : Mention Token) : Bool :=
  record.isBareName && bindName source earlier record.name

/-- The lists of a scan over some places that has passed others before. -/
def describeAfter {τ : Type} (source : ByteArray) (locate : Token → τ)
    (earlier visited : List Place) : Features τ :=
  { describe source locate visited with
    calls := (visited.zipIdx earlier.length).filterMap fun (p, i) =>
      p.callAfter source locate ((earlier ++ visited).take i) }

theorem describeAfter_nil {τ : Type} (locate : Token → τ) (visited : List Place) :
    describeAfter source locate [] visited = describe source locate visited := rfl

/-- A scan makes the lists that are told of the places it passes, if the names bound at
its beginning are those that the places passed before bind. -/
theorem map_ofFindings_additions {τ : Type} {bound : List String} {earlier : List Place}
    (h : ∀ name, name ∈ bound ↔ ∃ q ∈ earlier, q.boundName? source = some name)
    (locate : Token → τ) (ps : List Place) :
    (Features.ofFindings (additions source bound ps)).map locate =
      describeAfter source locate earlier ps := by
  rw [Features.map, Features.ofFindings, describeAfter, describe,
    filterMap_additions bind_instanceVariable?, filterMap_additions bind_localVariable?,
    filterMap_additions bind_condition?, calls_additions h]
  simp only [List.map_map, List.map_filterMap, map_callAfter]
  rfl

/-! ### Two scans of the same places -/

/-- What one place adds to the calls when more names are bound. -/
theorem bind_call?_filter {bound bound' : List String} {captured : String → Bool}
    (h : ∀ name, name ∈ bound' ↔ name ∈ bound ∨ captured name = true) (p : Place) :
    (p.finding? source bound').bind Finding.call? =
      ((p.finding? source bound).bind Finding.call?).filter fun c =>
        !(c.isBareName && captured c.name) := by
  by_cases hk : p.kind = .bareName
  · -- Only here do the names matter, and there the record is that of `p`.
    by_cases hb : p.text source ∈ bound
    · have hb' := (h _).2 (.inl hb)
      simp [finding?, hk, hb, hb']
    · by_cases hc : captured (p.text source) = true
      · have hb' := (h _).2 (.inr hc)
        simp [finding?, hk, hb, hb', hc, Finding.call?, Mention.isBareName, Option.filter_some]
      · have hb' : p.text source ∉ bound' := by
          rw [h]
          exact not_or.2 ⟨hb, hc⟩
        simp [finding?, hk, hb, hb', hc, Finding.call?, Mention.isBareName, Option.filter_some]
  · have hsame : p.finding? source bound' = p.finding? source bound :=
      finding?_congr fun hbare => absurd hbare hk
    rw [hsame]
    cases hc : (p.finding? source bound).bind Finding.call? with
    | none => rfl
    | some c =>
      have hbare : c.isBareName = false := by
        rw [Bool.eq_false_iff]
        exact fun hbare => hk ((isBareName_iff_of_bind_call? hc).1 hbare)
      simp [hbare, Option.filter_some]

/-- A scan that begins with more names bound records the same calls but those of bare
names that are bound in addition. -/
theorem calls_additions_filter {bound bound' : List String} {captured : String → Bool}
    (h : ∀ name, name ∈ bound' ↔ name ∈ bound ∨ captured name = true) (ps : List Place) :
    (additions source bound' ps).filterMap Finding.call? =
      ((additions source bound ps).filterMap Finding.call?).filter fun c =>
        !(c.isBareName && captured c.name) := by
  induction ps generalizing bound bound' with
  | nil => rfl
  | cons p ps ih =>
    -- What `p` binds is bound for both scans from here on.
    have hbind : ∀ name, name ∈ p.bind source bound' ↔
        name ∈ p.bind source bound ∨ captured name = true := by
      intro name
      rw [mem_bind, mem_bind, h, or_right_comm]
    rw [additions_cons, additions_cons, List.filterMap_append, List.filterMap_append,
      List.filter_append, ih hbind, filterMap_toList, filterMap_toList,
      ← Option.toList_filter, bind_call?_filter h]

theorem ofFindings_additions_foldl_bind (before ps : List Place) :
    Features.ofFindings (additions source (before.foldl (bind source) []) ps) =
      (Features.ofFindings (additions source [] ps)).filterCalls fun c =>
        !isCapturedBy source before c := by
  have h : ∀ name, name ∈ before.foldl (bind source) [] ↔
      name ∈ ([] : List String) ∨ bindName source before name = true := by
    intro name
    simp [mem_foldl_bind_nil, bindName, boundName?_eq_some_iff]
  rw [Features.filterCalls, Features.ofFindings, Features.ofFindings, calls_additions_filter h]
  simp only [filterMap_additions bind_instanceVariable?, filterMap_additions bind_localVariable?,
    filterMap_additions bind_condition?, isCapturedBy]

/-! ### Stretches -/

theorem features_eq_ofFindings_additions (p : Place) :
    p.features source = Features.ofFindings (additions source [] p.walk) := by
  rw [features, findings_eq_additions]

/-- The lists of a scan less the calls of bare names that places before it bind. -/
def featuresBehind (source : ByteArray) (before : List Place) (p : Place) : Features Token :=
  (p.features source).filterCalls fun c => !isCapturedBy source before c

theorem features_eq_append {outer inner : Place} {before after : List Place}
    (h : outer.walk = before ++ inner.walk ++ after) :
    outer.features source =
      Features.ofFindings (additions source [] before) ++ inner.featuresBehind source before ++
        Features.ofFindings
          (additions source ((before ++ inner.walk).foldl (bind source) []) after) := by
  rw [features_eq_ofFindings_additions, h, additions_append, additions_append,
    Features.ofFindings_append, Features.ofFindings_append, ofFindings_additions_foldl_bind,
    ← features_eq_ofFindings_additions, featuresBehind]

theorem calls_featuresBehind_sublist (before : List Place) (p : Place) :
    (p.featuresBehind source before).calls.Sublist (p.features source).calls :=
  List.filter_sublist

theorem filter_calls_featuresBehind (before : List Place) (p : Place) :
    ((p.featuresBehind source before).calls.filter fun c => !c.isBareName) =
      (p.features source).calls.filter fun c => !c.isBareName := by
  rw [featuresBehind, Features.filterCalls, List.filter_filter]
  refine List.filter_congr fun c _ => ?_
  cases hc : c.isBareName <;> simp [isCapturedBy, hc]

/-- The lists of an outer scan are those that are told of the places before an inner one,
then those of the inner one less what is captured, then those told of the places after.
The outer scan takes records from the inner list of calls and leaves the others in their
order, and the records that it takes are those of bare names. -/
theorem features_eq_stretches {τ : Type} (source : ByteArray) (locate : Token → τ)
    {outer inner : Place} (h : outer.Reaches inner) :
    (∃ before after, outer.walk = before ++ inner.walk ++ after) ∧
      ∀ before after, outer.walk = before ++ inner.walk ++ after →
        (outer.features source).map locate =
            describe source locate before ++ (inner.featuresBehind source before).map locate ++
              describeAfter source locate (before ++ inner.walk) after ∧
          (inner.featuresBehind source before).calls.Sublist (inner.features source).calls ∧
          ((inner.featuresBehind source before).calls.filter fun c => !c.isBareName) =
            (inner.features source).calls.filter (fun c => !c.isBareName) ∧
          ∀ c ∈ (inner.features source).calls, c.isBareName = true ↔
            ∃ q, inner.Reaches q ∧ q.kind = .bareName ∧ c = ⟨q.text source, some q⟩ := by
  refine ⟨?_, fun before after hwalk => ⟨?_, ?_, ?_, fun c hc => isBareName_iff hc⟩⟩
  · obtain ⟨before, after, hwalk⟩ := walk_infix_of_mem (mem_walk_iff.2 h)
    exact ⟨before, after, hwalk.symm⟩
  · have hstart : ∀ name, name ∈ ([] : List String) ↔
        ∃ q ∈ ([] : List Place), q.boundName? source = some name := by simp
    rw [features_eq_append hwalk, Features.map_append, Features.map_append,
      map_ofFindings_additions hstart, map_ofFindings_additions fun _ => mem_foldl_bind_nil,
      describeAfter_nil]
  · exact calls_featuresBehind_sublist before inner
  · exact filter_calls_featuresBehind before inner

/-- The call of `x` stands in the inner list and is not taken over into the outer one. -/
theorem features_eq_stretches_shadowing :
    shadowingMethod.Reaches shadowedMethod ∧
      (∃ before after, shadowingMethod.walk = before ++ shadowedMethod.walk ++ after ∧
        (shadowingMethod.features shadowingSource).map Token.line? =
          describe shadowingSource Token.line? before ++
            (shadowedMethod.featuresBehind shadowingSource before).map Token.line? ++
            describeAfter shadowingSource Token.line? (before ++ shadowedMethod.walk) after) ∧
      ((shadowedMethod.features shadowingSource).map Token.line?).calls = [⟨"x", some 4⟩] ∧
      ((shadowingMethod.features shadowingSource).map Token.line?).calls = [] := by
  obtain ⟨⟨before, after, hwalk⟩, hsplit⟩ :=
    features_eq_stretches shadowingSource Token.line? shadowingMethod_reaches
  exact ⟨shadowingMethod_reaches, ⟨before, after, hwalk, (hsplit before after hwalk).1⟩,
    by decide +kernel, by decide +kernel⟩

end Place

end RubyOutline
