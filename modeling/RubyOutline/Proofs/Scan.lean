import RubyOutline.Outline

/-!
A scan carries names along, and what it records of a place depends on all places
it has passed. Here that dependence is taken apart: a scan over a list of places
is a list of additions, each a function of one place and of the names bound
before it, and bound before it are the names that earlier places bind. So the
lists of a scan can be described with no state at all.
-/

namespace RubyOutline

/-- The lists that a scan makes. -/
structure Features (τ : Type) where
  instanceVariables : List (Mention τ)
  localVariables : List (Mention τ)
  calls : List (Mention τ)
  conditions : List (Condition τ)

namespace Features

variable {σ τ : Type}

def ofFindings (found : List (Finding τ)) : Features τ where
  instanceVariables := found.filterMap Finding.instanceVariable?
  localVariables := found.filterMap Finding.localVariable?
  calls := found.filterMap Finding.call?
  conditions := found.filterMap Finding.condition?

def map (f : σ → τ) (features : Features σ) : Features τ where
  instanceVariables := features.instanceVariables.map (·.map f)
  localVariables := features.localVariables.map (·.map f)
  calls := features.calls.map (·.map f)
  conditions := features.conditions.map (·.map f)

end Features

namespace Place

def features (source : ByteArray) (p : Place) : Features Token := .ofFindings (findings source p)

/-! ### A scan as a list of additions -/

/-- The names that are bound once a place has been passed. -/
def bind (source : ByteArray) (bound : List String) (p : Place) : List String :=
  match p.boundName? source with
  | some name => bound.insert name
  | none => bound

/-- What places add, one after the other, when some names are bound before. -/
def additions (source : ByteArray) : List String → List Place → List (Finding Token)
  | _, [] => []
  | bound, p :: ps => (p.finding? source bound).toList ++ additions source (p.bind source bound) ps

variable {source : ByteArray}

@[simp] theorem additions_nil (bound : List String) : additions source bound [] = [] := rfl

theorem additions_cons (bound : List String) (p : Place) (ps : List Place) :
    additions source bound (p :: ps) =
      (p.finding? source bound).toList ++ additions source (p.bind source bound) ps := rfl

theorem additions_append (bound : List String) (ps qs : List Place) :
    additions source bound (ps ++ qs) =
      additions source bound ps ++ additions source (ps.foldl (bind source) bound) qs := by
  induction ps generalizing bound with
  | nil => rfl
  | cons p ps ih =>
    rw [List.cons_append, additions_cons, additions_cons, ih, List.append_assoc, List.foldl_cons]

theorem bound_visit (scan : Scan) (p : Place) :
    (scan.visit source p).bound = p.bind source scan.bound := rfl

theorem found_visit (scan : Scan) (p : Place) :
    (scan.visit source p).found.toList =
      scan.found.toList ++ (p.finding? source scan.bound).toList := by
  simp only [Scan.visit]
  cases p.finding? source scan.bound with
  | none => simp
  | some finding => simp

theorem found_foldl_visit (scan : Scan) (ps : List Place) :
    (ps.foldl (Scan.visit source) scan).found.toList =
      scan.found.toList ++ additions source scan.bound ps := by
  induction ps generalizing scan with
  | nil => simp
  | cons p ps ih =>
    rw [List.foldl_cons, ih, found_visit, bound_visit, additions_cons, List.append_assoc]

theorem findings_eq_additions (p : Place) : findings source p = additions source [] p.walk := by
  rw [findings, Scan.cover, foldWalk_eq_foldl, found_foldl_visit]
  rfl

/-! ### Which names are bound -/

theorem mem_bind {bound : List String} {p : Place} {name : String} :
    name ∈ p.bind source bound ↔ name ∈ bound ∨ p.boundName? source = some name := by
  unfold bind
  cases p.boundName? source with
  | none => simp
  | some n =>
    rw [List.mem_insert_iff, Option.some.injEq]
    exact ⟨fun h => h.symm.imp_right Eq.symm, fun h => (h.imp_right Eq.symm).symm⟩

theorem mem_foldl_bind {bound : List String} {ps : List Place} {name : String} :
    name ∈ ps.foldl (bind source) bound ↔
      name ∈ bound ∨ ∃ p ∈ ps, p.boundName? source = some name := by
  induction ps generalizing bound with
  | nil => simp
  | cons p ps ih =>
    rw [List.foldl_cons, ih, mem_bind]
    simp [or_assoc]

theorem mem_foldl_bind_nil {ps : List Place} {name : String} :
    name ∈ ps.foldl (bind source) [] ↔ ∃ p ∈ ps, p.boundName? source = some name := by
  simp [mem_foldl_bind]

theorem boundName?_eq_some_iff {p : Place} {name : String} :
    p.boundName? source = some name ↔
      (p.kind = .localWrite ∨ p.kind = .parameter) ∧ p.text source = name := by
  unfold boundName?
  cases p.kind <;> simp

/-- Of the names bound before a place, only one matters, and for a bare name only. -/
theorem finding?_congr {bound bound' : List String} {p : Place}
    (h : p.kind = .bareName → (p.text source ∈ bound ↔ p.text source ∈ bound')) :
    p.finding? source bound = p.finding? source bound' := by
  unfold finding?
  cases hk : p.kind with
  | bareName => simp [h hk]
  | _ => rfl

/-! ### The lists without a state -/

theorem filterMap_toList {α β : Type} (o : Option α) (f : α → Option β) :
    o.toList.filterMap f = (o.bind f).toList := by
  cases o with
  | none => rfl
  | some a =>
    rw [Option.toList_some, Option.bind_some, List.filterMap_cons]
    cases f a <;> rfl

/-- Lists of records that do not depend on names have one record for every place
of their kind. -/
theorem filterMap_additions {α : Type} {select : Finding Token → Option α} {kind : Kind}
    {record : Place → α}
    (h : ∀ bound p, (p.finding? source bound).bind select =
      if p.kind = kind then some (record p) else none)
    (bound : List String) (ps : List Place) :
    (additions source bound ps).filterMap select = (ps.filter (·.kind == kind)).map record := by
  induction ps generalizing bound with
  | nil => rfl
  | cons p ps ih =>
    rw [additions_cons, List.filterMap_append, ih, filterMap_toList, h]
    by_cases hk : p.kind = kind
    · simp [hk]
    · simp [hk]

/-- Whether one of some places binds the text of a place. -/
def isBoundBy (source : ByteArray) (earlier : List Place) (p : Place) : Bool :=
  earlier.any fun q =>
    (q.kind == .localWrite || q.kind == .parameter) && q.text source == p.text source

/-- What a place adds to the calls when some places have been passed before. -/
def callAfter {τ : Type} (source : ByteArray) (locate : Token → τ) (earlier : List Place)
    (p : Place) : Option (Mention τ) :=
  match p.kind with
  | .call => (p.selector source).toOption.map fun s => ⟨s.name, locate s.token⟩
  | .bareName =>
    if p.isBoundBy source earlier then none else some ⟨p.text source, locate (some p)⟩
  | _ => none

/-- The lists of a scan over some places, told for each place from those before it. -/
def describe {τ : Type} (source : ByteArray) (locate : Token → τ) (visited : List Place) :
    Features τ where
  instanceVariables := (visited.filter (·.kind == .instanceWrite)).map fun p =>
    ⟨p.text source, locate (some p)⟩
  localVariables := (visited.filter (·.kind == .localWrite)).map fun p =>
    ⟨p.text source, locate (some p)⟩
  calls := visited.zipIdx.filterMap fun (p, i) => p.callAfter source locate (visited.take i)
  conditions := (visited.filter (·.kind == .conditional)).map fun p =>
    ⟨p.conditionText source, locate (some p)⟩

theorem isBoundBy_iff {earlier : List Place} {p : Place} :
    p.isBoundBy source earlier = true ↔
      ∃ q ∈ earlier, q.boundName? source = some (p.text source) := by
  simp [isBoundBy, boundName?_eq_some_iff]

theorem bind_instanceVariable? (bound : List String) (p : Place) :
    (p.finding? source bound).bind Finding.instanceVariable? =
      if p.kind = .instanceWrite then some ⟨p.text source, some p⟩ else none := by
  fun_cases finding? source bound p <;> simp_all [Finding.instanceVariable?]

theorem bind_localVariable? (bound : List String) (p : Place) :
    (p.finding? source bound).bind Finding.localVariable? =
      if p.kind = .localWrite then some ⟨p.text source, some p⟩ else none := by
  fun_cases finding? source bound p <;> simp_all [Finding.localVariable?]

theorem bind_condition? (bound : List String) (p : Place) :
    (p.finding? source bound).bind Finding.condition? =
      if p.kind = .conditional then some ⟨p.conditionText source, some p⟩ else none := by
  fun_cases finding? source bound p <;> simp_all [Finding.condition?]

/-- A record among the calls is that of a bare name that is not bound, or of a call. -/
theorem eq_of_bind_call? {bound : List String} {p : Place} {c : Mention Token}
    (h : (p.finding? source bound).bind Finding.call? = some c) :
    (p.kind = .bareName ∧ p.text source ∉ bound ∧ c = ⟨p.text source, some p⟩) ∨
      (p.kind = .call ∧ ∃ s, p.selector source = .ok s ∧ c = ⟨s.name, s.token⟩) := by
  unfold finding? at h
  cases hk : p.kind with
  | bareName =>
    by_cases hb : p.text source ∈ bound
    · simp [hk, hb] at h
    · simp only [hk, List.contains_iff_mem, hb, if_false, Option.bind_some, Finding.call?,
        Option.some.injEq] at h
      exact .inl ⟨rfl, hb, h.symm⟩
  | call =>
    cases hs : p.selector source with
    | error e => simp [hk, hs] at h
    | ok s =>
      simp only [hk, hs, Finding.call?, Option.bind_some, Option.some.injEq] at h
      exact .inr ⟨rfl, s, rfl, h.symm⟩
  | _ => simp [hk, Finding.call?] at h

/-- What a place adds to the calls, in terms of the names that some places bind. -/
theorem bind_call? {bound : List String} {earlier : List Place}
    (h : ∀ name, name ∈ bound ↔ ∃ q ∈ earlier, q.boundName? source = some name) (p : Place) :
    (p.finding? source bound).bind Finding.call? = p.callAfter source id earlier := by
  have hbound : p.isBoundBy source earlier = bound.contains (p.text source) := by
    rw [Bool.eq_iff_iff, isBoundBy_iff, List.contains_iff_mem, h]
  unfold finding? callAfter
  cases p.kind with
  | bareName =>
    simp only [hbound]
    split <;> rfl
  | call => cases p.selector source <;> rfl
  | _ => rfl

theorem calls_additions {bound : List String} {earlier : List Place}
    (h : ∀ name, name ∈ bound ↔ ∃ q ∈ earlier, q.boundName? source = some name)
    (ps : List Place) :
    (additions source bound ps).filterMap Finding.call? =
      (ps.zipIdx earlier.length).filterMap fun (p, i) =>
        p.callAfter source id ((earlier ++ ps).take i) := by
  induction ps generalizing bound earlier with
  | nil => rfl
  | cons p ps ih =>
    -- The names bound after `p` are those of the earlier places with `p` among them.
    have hbind : ∀ name, name ∈ p.bind source bound ↔
        ∃ q ∈ earlier ++ [p], q.boundName? source = some name := by
      intro name
      simp [mem_bind, h, or_and_right, exists_or]
    have hih := ih hbind
    rw [List.append_assoc, List.singleton_append, List.length_append, List.length_singleton] at hih
    rw [additions_cons, List.filterMap_append, hih, filterMap_toList, bind_call? h,
      List.zipIdx_cons, List.filterMap_cons]
    simp only [List.take_left]
    cases p.callAfter source id earlier <;> rfl

theorem map_callAfter {σ τ : Type} (locate : σ → τ) (token : Token → σ) (earlier : List Place)
    (p : Place) :
    (p.callAfter source token earlier).map (·.map locate) =
      p.callAfter source (locate ∘ token) earlier := by
  unfold callAfter
  cases p.kind with
  | bareName => cases p.isBoundBy source earlier <;> rfl
  | call => cases p.selector source <;> rfl
  | _ => rfl

/-- However records are located, a scan makes the lists that `describe` tells of
the places that are walked, and every call among these has a selector. -/
theorem features_eq_describe {τ : Type} (source : ByteArray) (locate : Token → τ) (p : Place) :
    (p.features source).map locate = describe source locate p.walk ∧
      ∀ q ∈ p.walk, q.kind = .call → ∃ selector, q.selector source = .ok selector := by
  refine ⟨?_, fun q _ hq => exists_selector_of_kind_eq_call hq source⟩
  have hstart : ∀ name, name ∈ ([] : List String) ↔
      ∃ q ∈ ([] : List Place), q.boundName? source = some name := by simp
  unfold features
  rw [findings_eq_additions, Features.map, Features.ofFindings, describe,
    filterMap_additions bind_instanceVariable?, filterMap_additions bind_localVariable?,
    filterMap_additions bind_condition?, calls_additions hstart]
  simp only [List.map_map, List.map_filterMap, List.length_nil, List.nil_append, map_callAfter]
  rfl

end Place

end RubyOutline
