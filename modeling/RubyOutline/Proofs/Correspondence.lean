import RubyOutline.Proofs.Scan
import RubyOutline.Proofs.Standing

/-!
Places that correspond. An outline reads few things about a place: what it is and says, the
part that it plays, the fields and members that it has, and what is walked from it. A map
from the places of one tree to those of another that keeps these carries outlines over: the
records are the same, and each is located by the place that corresponds. Nodes of no kind
leave no trace in a scan, so either tree may have more of them.
-/

namespace RubyOutline

/-! ### Replacing tokens -/

section Tokens

variable {σ τ υ : Type}

def Finding.map (g : σ → τ) : Finding σ → Finding τ
  | .instanceVariable m => .instanceVariable (m.map g)
  | .localVariable m => .localVariable (m.map g)
  | .call m => .call (m.map g)
  | .condition c => .condition (c.map g)

def Selector.map (g : Place → Place) (s : Selector) : Selector := ⟨s.name, s.token.map g⟩

theorem Finding.filterMap_map {α β : Type} {g : σ → τ} {k : α → β}
    {select : Finding σ → Option α} {select' : Finding τ → Option β}
    (h : ∀ finding, select' (finding.map g) = (select finding).map k) (found : List (Finding σ)) :
    (found.map (Finding.map g)).filterMap select' = (found.filterMap select).map k := by
  rw [List.filterMap_map, List.map_filterMap]
  congr 1
  funext finding
  exact h finding

theorem MethodOutline.map_map (g : σ → τ) (k : τ → υ) (m : MethodOutline σ) :
    (m.map g).map k = m.map (k ∘ g) := by
  simp [MethodOutline.map, Mention.map, Condition.map, Function.comp_def]

theorem ClassOutline.map_map (g : σ → τ) (k : τ → υ) (c : ClassOutline σ) :
    (c.map g).map k = c.map (k ∘ g) := by
  simp [ClassOutline.map, MethodOutline.map_map]

theorem Report.map_map (g : σ → τ) (k : τ → υ) (r : Report σ) :
    (r.map g).map k = r.map (k ∘ g) := by
  cases r with
  | classes cs => simp [Report.map, ClassOutline.map_map]
  | topLevel ms => simp [Report.map, MethodOutline.map_map]

end Tokens

namespace Place

/-! ### Nodes of no kind -/

/-- A node that a scan may meet without recording or binding anything. -/
def isIdle (p : Place) : Bool := p.kind == .other

/-- The places that a walk comes to, without the idle ones. -/
def busyWalk (p : Place) : List Place := p.walk.filter (!·.isIdle)

theorem finding?_of_isIdle {p : Place} (h : p.isIdle = true) (source : ByteArray)
    (bound : List String) : p.finding? source bound = none := by
  have hkind : p.kind = .other := by simpa [isIdle] using h
  simp [finding?, hkind]

theorem bind_of_isIdle {p : Place} (h : p.isIdle = true) (source : ByteArray)
    (bound : List String) : p.bind source bound = bound := by
  have hkind : p.kind = .other := by simpa [isIdle] using h
  simp [bind, boundName?, hkind]

theorem additions_filter_isIdle (source : ByteArray) (bound : List String) (ps : List Place) :
    additions source bound (ps.filter (!·.isIdle)) = additions source bound ps := by
  induction ps generalizing bound with
  | nil => rfl
  | cons p ps ih =>
    by_cases h : p.isIdle = true
    · rw [List.filter_cons_of_neg (by simp [h]), additions_cons, finding?_of_isIdle h,
        bind_of_isIdle h, ih]
      rfl
    · rw [List.filter_cons_of_pos (by simpa using h), additions_cons, additions_cons, ih]

theorem findings_eq_additions_busyWalk (source : ByteArray) (p : Place) :
    findings source p = additions source [] p.busyWalk := by
  rw [findings_eq_additions, busyWalk, additions_filter_isIdle]

/-- The places of a kind are met on a walk without the idle ones. -/
theorem collect_kind_eq_filter_busyWalk {k : Kind} (hk : k ≠ .other) (p : Place) :
    p.collect (·.kind == k) = p.busyWalk.filter (·.kind == k) := by
  rw [collect_eq_filter, busyWalk, List.filter_filter]
  apply List.filter_congr
  intro q _
  by_cases hq : q.kind = k
  · simp [isIdle, hq, hk]
  · simp [hq]

/-! ### What corresponds -/

/-- A map of places that keeps what they are and where they stand. -/
structure KeepsStanding (g : Place → Place) : Prop where
  type : ∀ p, (g p).type = p.type
  parentType : ∀ p, (g p).parentType? = p.parentType?
  fills : ∀ p name, (g p).fills name = p.fills name
  field : ∀ p name, (g p).field? name = (p.field? name).map g

namespace KeepsStanding

variable {g : Place → Place} (h : KeepsStanding g)

include h

theorem standsLike (p : Place) : StandsLike (g p) p where
  type := h.type p
  parentType := h.parentType p
  fills := h.fills p
  fieldType name := by
    rw [fieldType?, fieldType?, h.field]
    cases p.field? name with
    | none => rfl
    | some q => exact congrArg some (h.type q)

theorem kind_eq (p : Place) : (g p).kind = p.kind := (h.standsLike p).kind_eq

theorem isIdle_eq (p : Place) : (g p).isIdle = p.isIdle := by
  rw [isIdle, h.kind_eq, isIdle]

end KeepsStanding

/-! ### Names -/

/-- The types that decide how names are told. -/
def nameTypes : List String :=
  ["identifier", "destructured_parameter", "constant", "scope_resolution"]

/-- A map of places under which names are told alike, where the source may be another one. -/
structure KeepsNames (g : Place → Place) (source source' : ByteArray) : Prop where
  text : ∀ p, (g p).text source' = p.text source
  field : ∀ p name, (g p).field? name = (p.field? name).map g
  members : ∀ p, (g p).members = p.members.map g
  type_beq : ∀ p, ∀ type ∈ nameTypes, ((g p).type == type) = (p.type == type)

namespace KeepsNames

variable {g : Place → Place} {source source' : ByteArray} (h : KeepsNames g source source')

include h

theorem fieldText_eq (p : Place) (name : String) :
    (g p).fieldText source' name = p.fieldText source name := by
  unfold fieldText
  rw [h.field]
  cases p.field? name with
  | none => rfl
  | some q => exact h.text q

theorem argumentName_eq (p : Place) : (g p).argumentName source' = p.argumentName source := by
  unfold argumentName
  rw [h.type_beq p "identifier" (by decide), h.type_beq p "destructured_parameter" (by decide),
    h.text, h.field]
  split
  · rfl
  · cases p.field? "name" with
    | none => rfl
    | some name => exact h.text name

theorem argumentNames_eq (p : Place) : (g p).argumentNames source' = p.argumentNames source := by
  unfold argumentNames
  rw [h.field]
  cases p.field? "parameters" with
  | none => rfl
  | some parameters =>
    simp only [Option.map_some, h.members, List.map_map]
    exact List.map_congr_left fun q _ => h.argumentName_eq q

theorem isScopeResolution_eq (p : Place) : (g p).isScopeResolution = p.isScopeResolution :=
  h.type_beq p "scope_resolution" (by decide)

theorem lastSegment_eq (p : Place) : (g p).lastSegment source' = p.lastSegment source := by
  unfold lastSegment
  rw [h.field]
  cases p.field? "name" with
  | none => rfl
  | some name => exact h.text name

theorem segments_eq (p : Place) : (g p).segments source' = p.segments source := by
  fun_induction segments p source with
  | case1 p hs hf =>
    have hf' : (g p).field? "scope" = none := by rw [h.field, hf]; rfl
    rw [segments_of_scope_eq_none (by rw [h.isScopeResolution_eq, hs]) hf', h.lastSegment_eq]
  | case2 p hs scope hf hlt ih =>
    have hf' : (g p).field? "scope" = some (g scope) := by rw [h.field, hf]; rfl
    rw [segments_of_scope_eq_some (by rw [h.isScopeResolution_eq, hs]) hf', ih, h.lastSegment_eq]
  | case3 p hs =>
    rw [segments_of_not_isScopeResolution (by rw [h.isScopeResolution_eq]; exact hs), h.text]

theorem constantPath?_eq (p : Place) : (g p).constantPath? source' = p.constantPath? source := by
  rw [constantPath?, constantPath?, h.type_beq p "constant" (by decide), h.isScopeResolution_eq,
    h.segments_eq]

theorem superclassName?_eq (p : Place) :
    (g p).superclassName? source' = p.superclassName? source := by
  unfold superclassName?
  rw [h.field]
  cases p.field? "superclass" with
  | none => rfl
  | some superclass =>
    simp only [Option.map_some, Option.bind_eq_bind, Option.bind_some, h.members, List.head?_map]
    cases superclass.members.head? with
    | none => rfl
    | some expression => exact h.constantPath?_eq expression

theorem className_eq (p : Place) : (g p).className source' = p.className source := by
  unfold className
  rw [h.field, h.fieldText_eq]
  cases p.field? "name" with
  | none => rfl
  | some name => simp only [Option.map_some, Option.bind_some, h.constantPath?_eq]

end KeepsNames

/-! ### Correspondence -/

/-- A map of places that keeps all that an outline reads, where the source may be another
one. -/
structure Correspondence (g : Place → Place) (source source' : ByteArray) : Prop
    extends KeepsStanding g where
  text : ∀ p, (g p).text source' = p.text source
  bracket : ∀ p, (g p).nodes.find? (·.type == "[") = (p.nodes.find? (·.type == "[")).map g
  members : ∀ p, (g p).members = p.members.map g
  busyWalk : ∀ p, (g p).busyWalk = p.busyWalk.map g

namespace Correspondence

variable {g : Place → Place} {source source' : ByteArray} (h : Correspondence g source source')

include h

theorem keepsNames : KeepsNames g source source' where
  text := h.text
  field := h.field
  members := h.members
  type_beq p type _ := by rw [h.type]

theorem writeSuffix_eq (p : Place) : (g p).writeSuffix = p.writeSuffix := by
  rw [writeSuffix, (h.standsLike p).isPlainWrite_eq, writeSuffix]

/-! ### Scans -/

theorem selector_eq (p : Place) :
    (g p).selector source' = (p.selector source).map (Selector.map g) := by
  unfold selector
  rw [h.type]
  split
  · unfold binarySelector
    rw [h.field]
    cases p.field? "operator" with
    | none => rfl
    | some operator => simp only [Option.map_some, h.type]; rfl
  · split
    · unfold unarySelector
      rw [h.field]
      cases p.field? "operator" with
      | none => rfl
      | some operator =>
        simp only [Option.map_some, h.type]
        cases unaryMessage? operator.type <;> rfl
    · split
      · simp only [indexSelector, h.writeSuffix_eq, h.bracket]
        rfl
      · unfold callSelector
        rw [h.field]
        cases p.field? "method" with
        | none => rfl
        | some name => simp only [Option.map_some, h.text, h.writeSuffix_eq]; rfl

theorem bind_eq (bound : List String) (p : Place) :
    (g p).bind source' bound = p.bind source bound := by
  simp only [bind, boundName?, h.kind_eq, h.text]

theorem finding?_eq (bound : List String) (p : Place) :
    (g p).finding? source' bound =
      (p.finding? source bound).map (Finding.map (Option.map g)) := by
  unfold finding?
  rw [h.kind_eq]
  cases p.kind with
  | call =>
    simp only [h.selector_eq]
    cases p.selector source <;> rfl
  | bareName =>
    simp only [h.text]
    split <;> rfl
  | conditional => simp only [conditionText, h.text]; rfl
  | instanceWrite => simp only [h.text]; rfl
  | localWrite => simp only [h.text]; rfl
  | _ => rfl

theorem additions_eq (bound : List String) (ps : List Place) :
    additions source' bound (ps.map g) =
      (additions source bound ps).map (Finding.map (Option.map g)) := by
  induction ps generalizing bound with
  | nil => rfl
  | cons p ps ih =>
    -- What is bound are names, not places, so both scans go on with the same list.
    rw [List.map_cons, additions_cons, additions_cons, h.finding?_eq, h.bind_eq, ih,
      List.map_append]
    cases p.finding? source bound <;> rfl

theorem findings_eq (p : Place) :
    findings source' (g p) = (findings source p).map (Finding.map (Option.map g)) := by
  rw [findings_eq_additions_busyWalk, findings_eq_additions_busyWalk, h.busyWalk, h.additions_eq]

theorem collect_kind_eq {k : Kind} (hk : k ≠ .other) (p : Place) :
    (g p).collect (·.kind == k) = (p.collect (·.kind == k)).map g := by
  rw [collect_kind_eq_filter_busyWalk hk, collect_kind_eq_filter_busyWalk hk, h.busyWalk,
    List.filter_map]
  congr 2
  funext q
  rw [Function.comp_apply, h.kind_eq]

/-! ### Outlines -/

theorem methodOutline_eq (p : Place) :
    (g p).methodOutline source' = (p.methodOutline source).map (Option.map g) := by
  simp only [methodOutline, MethodOutline.map, h.keepsNames.fieldText_eq,
    h.keepsNames.argumentNames_eq, h.field, h.findings_eq]
  congr 1
  all_goals exact Finding.filterMap_map (by rintro ⟨⟩ <;> rfl) _

theorem methodOutlines_eq (p : Place) :
    (g p).methodOutlines source' = (p.methodOutlines source).map (·.map (Option.map g)) := by
  rw [methodOutlines, methodDefinitions, h.collect_kind_eq (by decide), List.map_map,
    methodOutlines, List.map_map]
  exact List.map_congr_left fun q _ => h.methodOutline_eq q

theorem classOutline_eq (p : Place) :
    (g p).classOutline source' = (p.classOutline source).map (Option.map g) := by
  simp only [classOutline, ClassOutline.map, h.keepsNames.className_eq,
    h.keepsNames.superclassName?_eq, h.field, h.methodOutlines_eq]

/-- The outline of a program, located by the places that correspond. -/
theorem outline_eq (p : Place) :
    (g p).outline source' = (p.outline source).map (Option.map g) := by
  unfold outline
  rw [classDefinitions, h.collect_kind_eq (by decide), ← classDefinitions]
  -- The form of the report is decided by whether there are classes, on both sides alike.
  cases p.classDefinitions with
  | nil => simp only [List.map_nil, Report.map, h.methodOutlines_eq]
  | cons c cs =>
    simp only [List.map_cons, Report.map, h.classOutline_eq, List.map_map]
    congr 2
    exact List.map_congr_left fun q _ => h.classOutline_eq q

/-- A report whose lines are those of the places that correspond. -/
theorem report_eq (p : Place) :
    (g p).report source' = (p.outline source).map (Token.line? ∘ Option.map g) := by
  rw [report, h.outline_eq, Report.map_map]

end Correspondence

end Place

end RubyOutline
