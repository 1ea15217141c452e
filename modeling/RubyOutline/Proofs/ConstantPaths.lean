import RubyOutline.Outline
import RubyOutline.Proofs.Nesting
import RubyOutline.Proofs.SpanText

/-!
Paths of constants, taken apart again. The scope resolutions of a path are passed one by one
on the way from the whole path down to what it begins with, and each of them adds the segment
that its name is. As long as no segment has a colon in it, the segments are found again in
the text of the path. And where the parts of a path follow one another in the source without
a gap, joining their texts is as good as reading the source from end to end, even if characters
are broken off at the joints.
-/

namespace RubyOutline

namespace Text

/-- The parts of a text between the double colons in it, which are found from the left; always
at least one part. -/
def splitAtColons : List Char → List (List Char)
  | ':' :: ':' :: cs => [] :: splitAtColons cs
  | c :: cs => (c :: (splitAtColons cs).headD []) :: (splitAtColons cs).tail
  | [] => [[]]

def splitPath (s : String) : List String := (splitAtColons s.toList).map String.ofList

theorem splitAtColons_cons {c : Char} (h : c ≠ ':') (cs : List Char) :
    splitAtColons (c :: cs) = (c :: (splitAtColons cs).headD []) :: (splitAtColons cs).tail :=
  splitAtColons.eq_2 c cs fun _ hc _ => h hc

theorem splitAtColons_of_notMem {part : List Char} (h : ':' ∉ part) :
    splitAtColons part = [part] := by
  induction part with
  | nil => rfl
  | cons c part ih =>
    obtain ⟨hc, hpart⟩ := List.ne_and_not_mem_of_not_mem_cons h
    rw [splitAtColons_cons (Ne.symm hc), ih hpart]
    rfl

theorem splitAtColons_append {part : List Char} (h : ':' ∉ part) (rest : List Char) :
    splitAtColons (part ++ ':' :: ':' :: rest) = part :: splitAtColons rest := by
  induction part with
  | nil => rfl
  | cons c part ih =>
    obtain ⟨hc, hpart⟩ := List.ne_and_not_mem_of_not_mem_cons h
    rw [List.cons_append, splitAtColons_cons (Ne.symm hc), ih hpart]
    rfl

/-- Parts without colons are found again in the text that they are joined to. -/
theorem splitPath_intercalate {parts : List String} (hne : parts ≠ [])
    (h : ∀ part ∈ parts, ':' ∉ part.toList) : splitPath ("::".intercalate parts) = parts := by
  induction parts with
  | nil => exact absurd rfl hne
  | cons part parts ih =>
    have hpart := h part List.mem_cons_self
    cases parts with
    | nil =>
      rw [String.intercalate_singleton, splitPath, splitAtColons_of_notMem hpart]
      simp
    | cons next parts =>
      have hrest := ih (List.cons_ne_nil _ _) fun s hs => h s (List.mem_cons_of_mem _ hs)
      have htext : ("::".intercalate (part :: next :: parts)).toList =
          part.toList ++ ':' :: ':' :: ("::".intercalate (next :: parts)).toList := by
        rw [String.intercalate_cons_cons, String.append_assoc, String.toList_append,
          String.toList_append]
        rfl
      rw [splitPath, htext, splitAtColons_append hpart, List.map_cons, String.ofList_toList,
        ← splitPath, hrest]

end Text

namespace Place

/-! ### The way down a path -/

/-- The scope resolutions on the way down from a node by the field `scope`, and what the way
ends at: a node that is no scope resolution, or nothing. -/
inductive ScopeChain : Place → List Place → Option Place → Prop
  | qualifier {p : Place} (type : p.type ≠ "scope_resolution") : ScopeChain p [] (some p)
  | topLevel {p : Place} (type : p.type = "scope_resolution") (scope : p.field? "scope" = none) :
    ScopeChain p [p] none
  | inner {p q : Place} {chain : List Place} {qualifier : Option Place}
      (type : p.type = "scope_resolution") (scope : p.field? "scope" = some q)
      (rest : ScopeChain q chain qualifier) : ScopeChain p (p :: chain) qualifier

/-- The segments of a path, outermost first: the text of what it begins with, empty if it
begins at the top level, and then the names of its scope resolutions. -/
def chainSegments (source : ByteArray) (chain : List Place) (qualifier : Option Place) :
    List String :=
  (qualifier.map (·.text source)).getD "" :: (chain.map (·.fieldText source "name")).reverse

theorem exists_scopeChain (p : Place) : ∃ chain qualifier, ScopeChain p chain qualifier := by
  induction p using nodesInduction with
  | step p ih =>
    by_cases htype : p.type = "scope_resolution"
    · cases hscope : p.field? "scope" with
      | none => exact ⟨[p], none, .topLevel htype hscope⟩
      | some q =>
        obtain ⟨chain, qualifier, hrest⟩ := ih q (mem_nodes_of_field? hscope)
        exact ⟨p :: chain, qualifier, .inner htype hscope hrest⟩
    · exact ⟨[], some p, .qualifier htype⟩

/-- A node has one field of a name at most, so there is one way down. -/
theorem ScopeChain.unique {p : Place} {chain chain' : List Place} {q q' : Option Place}
    (h : ScopeChain p chain q) (h' : ScopeChain p chain' q') : chain = chain' ∧ q = q' := by
  induction h generalizing chain' q' with
  | qualifier type =>
    cases h' with
    | qualifier => exact ⟨rfl, rfl⟩
    | topLevel type' => exact absurd type' type
    | inner type' => exact absurd type' type
  | topLevel type scope =>
    cases h' with
    | qualifier type' => exact absurd type type'
    | topLevel => exact ⟨rfl, rfl⟩
    | inner _ scope' => cases scope.symm.trans scope'
  | inner type scope rest ih =>
    cases h' with
    | qualifier type' => exact absurd type type'
    | topLevel _ scope' => cases scope.symm.trans scope'
    | inner _ scope' rest' =>
      obtain rfl := Option.some.inj (scope.symm.trans scope')
      obtain ⟨rfl, rfl⟩ := ih rest'
      exact ⟨rfl, rfl⟩

theorem lastSegment_eq_fieldText (source : ByteArray) (p : Place) :
    p.lastSegment source = p.fieldText source "name" := by
  unfold lastSegment fieldText
  cases p.field? "name" <;> rfl

theorem isScopeResolution_iff {p : Place} :
    p.isScopeResolution = true ↔ p.type = "scope_resolution" := by
  rw [isScopeResolution, beq_iff_eq]

/-- The segments that are told from the outermost on are those of the way down, backwards. -/
theorem ScopeChain.segments_eq {source : ByteArray} {p : Place} {chain : List Place}
    {qualifier : Option Place} (h : ScopeChain p chain qualifier) :
    p.segments source = chainSegments source chain qualifier := by
  induction h with
  | qualifier type =>
    rw [segments_of_not_isScopeResolution (mt isScopeResolution_iff.1 type)]
    rfl
  | topLevel type scope =>
    rw [segments_of_scope_eq_none (isScopeResolution_iff.2 type) scope, lastSegment_eq_fieldText]
    rfl
  | inner type scope _ ih =>
    rw [segments_of_scope_eq_some (isScopeResolution_iff.2 type) scope, ih,
      lastSegment_eq_fieldText, chainSegments, chainSegments, List.map_cons, List.reverse_cons,
      List.cons_append]

/-- A node that is named by a path of constants, be it of one constant only. -/
def IsConstantPath (p : Place) : Prop := p.type = "constant" ∨ p.type = "scope_resolution"

/-- A path of constants and the segments that are passed on the way down. -/
structure HasSegments (source : ByteArray) (p : Place) (segments : List String) : Prop where
  path : p.IsConstantPath
  spelled : ∃ chain qualifier, ScopeChain p chain qualifier ∧
    segments = chainSegments source chain qualifier

theorem constantPath?_of_isConstantPath {p : Place} (h : p.IsConstantPath) (source : ByteArray) :
    p.constantPath? source = some ("::".intercalate (p.segments source)) := by
  unfold constantPath?
  rcases h with type | type
  · simp [type]
  · simp [isScopeResolution_iff.2 type]

namespace HasSegments

variable {source source' : ByteArray} {p p' : Place} {segments segments' : List String}

theorem segments_eq (h : HasSegments source p segments) : p.segments source = segments := by
  obtain ⟨chain, qualifier, hchain, rfl⟩ := h.spelled
  exact hchain.segments_eq

theorem ne_nil (h : HasSegments source p segments) : segments ≠ [] := by
  obtain ⟨chain, qualifier, -, rfl⟩ := h.spelled
  exact List.cons_ne_nil _ _

theorem constantPath?_eq (h : HasSegments source p segments) :
    p.constantPath? source = some ("::".intercalate segments) := by
  rw [constantPath?_of_isConstantPath h.path, h.segments_eq]

theorem splitPath_eq (h : HasSegments source p segments)
    (hcolon : ∀ s ∈ segments, ':' ∉ s.toList) :
    Text.splitPath ("::".intercalate segments) = segments :=
  Text.splitPath_intercalate h.ne_nil hcolon

theorem constantPath?_eq_iff (h : HasSegments source p segments)
    (h' : HasSegments source' p' segments') (hcolon : ∀ s ∈ segments, ':' ∉ s.toList)
    (hcolon' : ∀ s ∈ segments', ':' ∉ s.toList) :
    p.constantPath? source = p'.constantPath? source' ↔ segments = segments' := by
  rw [h.constantPath?_eq, h'.constantPath?_eq, Option.some.injEq]
  constructor
  · intro heq
    rw [← h.splitPath_eq hcolon, heq, h'.splitPath_eq hcolon']
  · intro heq
    rw [heq]

end HasSegments

theorem constantPath?_topLevel {source : ByteArray} {p : Place}
    (type : p.type = "scope_resolution") (scope : p.field? "scope" = none) :
    p.constantPath? source = some ("::" ++ p.fieldText source "name") := by
  rw [constantPath?_of_isConstantPath (.inr type),
    segments_of_scope_eq_none (isScopeResolution_iff.2 type) scope, lastSegment_eq_fieldText,
    String.intercalate_cons_cons, String.intercalate_singleton, String.empty_append]

theorem constantPath?_constant {source : ByteArray} {p : Place} (type : p.type = "constant") :
    p.constantPath? source = some (p.text source) := by
  have hs : ¬ p.isScopeResolution = true := by simp [isScopeResolution, type]
  rw [constantPath?_of_isConstantPath (.inl type), segments_of_not_isScopeResolution hs,
    String.intercalate_singleton]

/-- A name at the top level is not the name alone. -/
theorem constantPath?_topLevel_ne {source source' : ByteArray} {p q : Place}
    (type : p.type = "constant") (type' : q.type = "scope_resolution")
    (scope : q.field? "scope" = none) (name : q.fieldText source' "name" = p.text source) :
    q.constantPath? source' ≠ p.constantPath? source := by
  rw [constantPath?_topLevel type' scope, constantPath?_constant type, name]
  intro h
  have hlength := congrArg String.length (Option.some.inj h)
  rw [String.length_append] at hlength
  have hcolons : "::".length = 2 := rfl
  omega

/-- There is one way down from every node. The name of a path of constants is what its segments
on this way are joined to, the outermost first. If they have no colons, they are found again in
the name, so that paths are told apart by their names just as by their segments; and a constant
at the top level is told apart from the constant alone in any case. -/
theorem constantPath?_spells_segments :
    (∀ p : Place, ∃! way : List Place × Option Place, ScopeChain p way.1 way.2) ∧
      (∀ (source : ByteArray) (p : Place) segments, HasSegments source p segments →
        p.constantPath? source = some ("::".intercalate segments) ∧
        ((∀ s ∈ segments, ':' ∉ s.toList) →
          Text.splitPath ("::".intercalate segments) = segments)) ∧
      (∀ (source source' : ByteArray) (p p' : Place) segments segments',
        HasSegments source p segments → HasSegments source' p' segments' →
        (∀ s ∈ segments, ':' ∉ s.toList) → (∀ s ∈ segments', ':' ∉ s.toList) →
          (p.constantPath? source = p'.constantPath? source' ↔ segments = segments')) ∧
      ∀ (source source' : ByteArray) (p q : Place), p.type = "constant" →
        q.type = "scope_resolution" → q.field? "scope" = none →
        q.fieldText source' "name" = p.text source →
          q.constantPath? source' ≠ p.constantPath? source := by
  refine ⟨fun p => ?_, fun source p segments h => ⟨h.constantPath?_eq, h.splitPath_eq⟩,
    fun source source' p p' segments segments' h h' => h.constantPath?_eq_iff h',
    fun source source' p q => constantPath?_topLevel_ne⟩
  obtain ⟨chain, qualifier, h⟩ := exists_scopeChain p
  refine ⟨(chain, qualifier), h, fun way h' => ?_⟩
  obtain ⟨hchain, hqualifier⟩ := h'.unique h
  exact Prod.ext hchain hqualifier

/-- The path `::A::B` with two broken characters, one of them in front of colons. -/
def tornPathSource : ByteArray := ⟨#[0x3A, 0x3A, 0x41, 0xC3, 0x3A, 0x3A, 0x42, 0xFF]⟩

def tornQualifierChildren : List Tree := [.node (plainLabel "constant" 2 4 0 2 (some "name")) []]

def tornPath : Place :=
  .top (plainLabel "scope_resolution" 0 8 0 0 none)
    [.node (plainLabel "scope_resolution" 0 4 0 0 (some "scope")) tornQualifierChildren,
     .node (plainLabel "constant" 6 8 0 6 (some "name")) []]

def tornQualifier : Place :=
  .inside tornPath 0 (plainLabel "scope_resolution" 0 4 0 0 (some "scope")) tornQualifierChildren

theorem constantPath?_spells_segments_torn :
    HasSegments tornPathSource tornPath ["", "A\uFFFD", "B\uFFFD"] ∧
      HasSegments tornPathSource tornQualifier ["", "A\uFFFD"] ∧
      tornPath.constantPath? tornPathSource = some "::A\uFFFD::B\uFFFD" ∧
      Text.splitPath "::A\uFFFD::B\uFFFD" = ["", "A\uFFFD", "B\uFFFD"] ∧
      tornPath.constantPath? tornPathSource ≠ tornQualifier.constantPath? tornPathSource := by
  have hqualifier : ScopeChain tornQualifier [tornQualifier] none := .topLevel rfl rfl
  have hpath : HasSegments tornPathSource tornPath ["", "A\uFFFD", "B\uFFFD"] :=
    ⟨.inr rfl, _, _, .inner rfl rfl hqualifier, by decide +kernel⟩
  have hpath' : HasSegments tornPathSource tornQualifier ["", "A\uFFFD"] :=
    ⟨.inr rfl, _, _, hqualifier, by decide +kernel⟩
  have hcolon : ∀ s ∈ ["", "A\uFFFD", "B\uFFFD"], ':' ∉ s.toList := by decide
  have hcolon' : ∀ s ∈ ["", "A\uFFFD"], ':' ∉ s.toList := by decide
  obtain ⟨-, hname, hdistinct, -⟩ := constantPath?_spells_segments
  obtain ⟨htext, hsplit⟩ := hname _ _ _ hpath
  have hjoin : "::".intercalate ["", "A\uFFFD", "B\uFFFD"] = "::A\uFFFD::B\uFFFD" := by decide
  rw [hjoin] at htext hsplit
  refine ⟨hpath, hpath', htext, hsplit hcolon, fun heq => ?_⟩
  have hsame := (hdistinct _ _ _ _ _ _ hpath hpath' hcolon hcolon').1 heq
  contradiction

/-! ### Paths without gaps -/

end Place

/-- A span that ends not before it begins, and in the source. -/
structure Span.Within (span : Span) (source : ByteArray) : Prop where
  start_le_stop : span.start ≤ span.stop
  stop_le_size : span.stop ≤ source.size

namespace Place

open Utf8

/-- A path whose parts follow one another in the source: every scope resolution ends with its
name, in front of the name stand two colons, and in front of these stands what the name is
looked up in, or the scope resolution begins with them. -/
inductive Gapless (source : ByteArray) : Place → Prop
  | qualifier {p : Place} (type : p.type ≠ "scope_resolution")
      (within : p.label.span.Within source) : Gapless source p
  | topLevel {p name : Place} (type : p.type = "scope_resolution")
      (scope : p.field? "scope" = none) (field : p.field? "name" = some name)
      (within : name.label.span.Within source)
      (colons : Span.bytes ⟨p.label.span.start, name.label.span.start⟩ source = encode "::")
      (stop : p.label.span.stop = name.label.span.stop) : Gapless source p
  | inner {p q name : Place} (type : p.type = "scope_resolution")
      (scope : p.field? "scope" = some q) (field : p.field? "name" = some name)
      (within : name.label.span.Within source) (start : p.label.span.start = q.label.span.start)
      (colons : Span.bytes ⟨q.label.span.stop, name.label.span.start⟩ source = encode "::")
      (stop : p.label.span.stop = name.label.span.stop) (rest : Gapless source q) :
      Gapless source p

end Place

namespace Span

open Utf8

variable {source : ByteArray}

theorem le_of_colons {a b : Nat} (h : bytes ⟨a, b⟩ source = encode "::") : a ≤ b := by
  by_contra hlt
  rw [bytes_eq_nil source (Nat.le_of_not_le hlt)] at h
  contradiction

/-- A colon continues no character, so what is broken off in front of it stays there. -/
theorem text_of_colons {a b c d : Nat} (hab : a ≤ b) (hcd : c ≤ d)
    (colons : bytes ⟨b, c⟩ source = encode "::") :
    text ⟨a, d⟩ source = text ⟨a, b⟩ source ++ "::" ++ text ⟨c, d⟩ source := by
  have hbc := le_of_colons colons
  have hcut : ∀ x ∈ (encode "::" ++ bytes ⟨c, d⟩ source).head?, continuation.has x = false := by
    intro x hx
    obtain rfl : 0x3A = x := Option.some.inj hx
    rfl
  calc text ⟨a, d⟩ source
      = decodeLossy (bytes ⟨a, b⟩ source ++ (encode "::" ++ bytes ⟨c, d⟩ source)) := by
        rw [text, bytes_append source hab (hbc.trans hcd), bytes_append source hbc hcd, colons]
    _ = text ⟨a, b⟩ source ++ ("::" ++ text ⟨c, d⟩ source) := by
        rw [decodeLossy_append hcut, decodeLossy_encode_append, ← text, ← text]
    _ = text ⟨a, b⟩ source ++ "::" ++ text ⟨c, d⟩ source := by rw [String.append_assoc]

end Span

namespace Place

variable {source : ByteArray} {p : Place}

theorem Gapless.start_le_stop (h : Gapless source p) :
    p.label.span.start ≤ p.label.span.stop := by
  induction h with
  | qualifier _ within => exact within.start_le_stop
  | topLevel _ _ _ within colons stop =>
    rw [stop]
    exact (Span.le_of_colons colons).trans within.start_le_stop
  | inner _ _ _ within start colons stop _ ih =>
    rw [start, stop]
    exact ih.trans ((Span.le_of_colons colons).trans within.start_le_stop)

theorem lastSegment_of_field? {name : Place} (h : p.field? "name" = some name) :
    p.lastSegment source = name.label.span.text source := by
  rw [lastSegment, h]
  rfl

theorem Gapless.intercalate_segments (h : Gapless source p) :
    "::".intercalate (p.segments source) = p.text source := by
  induction h with
  | qualifier type =>
    rw [segments_of_not_isScopeResolution (mt isScopeResolution_iff.1 type),
      String.intercalate_singleton]
  | @topLevel p name type scope field within colons stop =>
    have hspan : p.label.span = ⟨p.label.span.start, name.label.span.stop⟩ := by rw [← stop]
    have hempty : Span.text ⟨p.label.span.start, p.label.span.start⟩ source = "" := by
      rw [Span.text, Span.bytes_eq_nil source (Nat.le_refl _), Utf8.decodeLossy_nil]
    rw [segments_of_scope_eq_none (isScopeResolution_iff.2 type) scope,
      lastSegment_of_field? field, String.intercalate_cons_cons, String.intercalate_singleton,
      text, hspan, Span.text_of_colons (Nat.le_refl _) within.start_le_stop colons, hempty]
  | @inner p q name type scope field within start colons stop rest ih =>
    have hspan : p.label.span = ⟨q.label.span.start, name.label.span.stop⟩ := by
      rw [← start, ← stop]
    have hne : q.segments source ≠ [] := by
      obtain ⟨chain, qualifier, hchain⟩ := exists_scopeChain q
      rw [hchain.segments_eq]
      exact List.cons_ne_nil _ _
    rw [segments_of_scope_eq_some (isScopeResolution_iff.2 type) scope,
      lastSegment_of_field? field,
      String.intercalate_append_of_ne_nil hne (List.cons_ne_nil _ _),
      String.intercalate_singleton, ih, text, text, hspan,
      Span.text_of_colons rest.start_le_stop within.start_le_stop colons]

/-- The name of a path that has no gaps is its text in the source, whatever bytes its parts
consist of. -/
theorem constantPath?_of_gapless (path : p.IsConstantPath) (h : Gapless source p) :
    p.constantPath? source = some (p.text source) := by
  rw [constantPath?_of_isConstantPath path, h.intercalate_segments]

theorem constantPath?_of_gapless_torn :
    tornPath.IsConstantPath ∧ Gapless tornPathSource tornPath ∧
      tornPath.constantPath? tornPathSource = some (tornPath.text tornPathSource) ∧
      tornPath.text tornPathSource = "::A\uFFFD::B\uFFFD" := by
  have hqualifier : Gapless tornPathSource tornQualifier :=
    .topLevel rfl rfl rfl ⟨by decide, by decide⟩ (by decide) rfl
  have hpath : Gapless tornPathSource tornPath :=
    .inner rfl rfl rfl ⟨by decide, by decide⟩ rfl (by decide) rfl hqualifier
  exact ⟨.inr rfl, hpath, constantPath?_of_gapless (.inr rfl) hpath, by decide +kernel⟩

end Place

end RubyOutline
