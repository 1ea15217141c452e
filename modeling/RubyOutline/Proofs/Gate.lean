import Mathlib.Data.List.Find
import RubyOutline.Analysis
import RubyOutline.Proofs.ErrorSearch

/-!
What the syntax gate lets through. A parser marks a node as damaged exactly when
there is an error at or below it. On such trees the two searches of the gate, one
over all nodes and one over those that a walk comes to, amount to one criterion
that mentions neither marks nor searches, and the node that a tree is refused for
is the first that the criterion objects to.
-/

namespace RubyOutline

/-- A row and a column are stated, so that a fault can say where it is. -/
def Label.Located (label : Label) : Prop :=
  ∃ row column rest, label.start = some (.whole row :: .whole column :: rest)

theorem Label.position?_eq_some {label : Label} {row column : Int} {rest : List Coordinate}
    (h : label.start = some (.whole row :: .whole column :: rest)) :
    label.position? = some (row + 1, column + 1) := by
  simp only [Label.position?, h]

theorem Label.located_iff {label : Label} : label.Located ↔ label.position?.isSome := by
  constructor
  · rintro ⟨row, column, rest, h⟩
    simp [Label.position?_eq_some h]
  · intro h
    unfold Label.position? at h
    split at h
    · next row column rest heq => exact ⟨row, column, rest, heq⟩
    · simp at h

instance (label : Label) : Decidable label.Located := decidable_of_iff _ Label.located_iff.symm

namespace Place

/-- An identifier spelled like a clause keyword that neither names a method nor
declares a parameter. -/
def Stray (source : ByteArray) (p : Place) : Prop :=
  p.type = "identifier" ∧ p.text source ∈ clauseKeywords ∧
    p.isMethodName = false ∧ p.isParameter = false

/-- A node is marked as damaged exactly when a node at or below it is broken. -/
def Coherent (p : Place) : Prop :=
  ∀ q, p.Encloses q → (q.label.damaged = true ↔ ∃ r, q.Encloses r ∧ r.Broken)

/-- No node is broken, and none that is reached through named nodes is a stray keyword. -/
structure Sound (source : ByteArray) (p : Place) : Prop where
  not_broken : ∀ q, p.Encloses q → ¬ q.Broken
  not_stray : ∀ q, p.Reaches q → ¬ q.Stray source

/-- The node that is to blame for an unsound tree: the first broken one in
pre-order or, where none is broken, the first stray keyword in walking order. -/
inductive Blamed (source : ByteArray) (p q : Place) : Prop
  | broken (first : IsFirst Broken p.preorder q)
  | stray (whole : ∀ r, p.Encloses r → ¬ r.Broken) (first : IsFirst (Stray source) p.walk q)

instance (p : Place) : Decidable p.Coherent :=
  decidable_of_iff
    (∀ q ∈ p.preorder, (q.label.damaged = true ↔ ∃ r ∈ q.preorder, r.Broken))
    (by simp only [Coherent, mem_preorder_iff])

theorem isStrayKeyword_iff {source : ByteArray} {p : Place} :
    p.isStrayKeyword source = true ↔ p.Stray source := by
  simp only [isStrayKeyword, Stray, Bool.and_eq_true, beq_iff_eq, Bool.not_eq_true',
    Bool.or_eq_false_iff, List.contains_iff_mem]
  constructor
  · rintro ⟨⟨ht, hm, hp⟩, hk⟩
    exact ⟨ht, hk, hm, hp⟩
  · rintro ⟨ht, hk, hm, hp⟩
    exact ⟨⟨ht, hm, hp⟩, hk⟩

/-! ### The two searches -/

theorem Coherent.not_broken {p : Place} (hp : p.Coherent) (h : ¬ p.label.damaged = true) :
    ∀ q, p.Encloses q → ¬ q.Broken :=
  fun q hq hb => h ((hp p (Encloses.refl p)).2 ⟨q, hq, hb⟩)

/-- Where marks can be relied on, nothing broken is hidden from the places above it. -/
theorem Coherent.exposes {p q : Place} (hp : p.Coherent) (hq : p.Encloses q) (hb : q.Broken) :
    p.Exposes q :=
  fun a ha hpa => (hp a hpa).2 ⟨q, hq.of_mem_ancestors ha hpa, hb⟩

theorem Coherent.firstError_eq_find? {p : Place} (hp : p.Coherent) :
    p.firstError = p.preorder.find? isError := by
  classical
  rw [Place.firstError_eq_find?]
  refine List.find?_congr fun q hq => ?_
  cases he : q.isError with
  | false => rfl
  | true => simp [hp.exposes (mem_preorder_iff.1 hq) (isError_iff.1 he)]

theorem foldl_or_eq_find? (test : Place → Bool) (ps : List Place) (found : Option Place) :
    ps.foldl (fun found q => found.or (if test q then some q else none)) found =
      found.or (ps.find? test) := by
  induction ps generalizing found with
  | nil => simp
  | cons p ps ih =>
    rw [List.foldl_cons, ih, Option.or_assoc, List.find?_cons]
    cases test p <;> simp

theorem firstStrayKeyword_eq_find? (source : ByteArray) (p : Place) :
    p.firstStrayKeyword source = p.walk.find? (isStrayKeyword source) := by
  rw [firstStrayKeyword, foldWalk_eq_foldl, foldl_or_eq_find?, Option.none_or]

/-! ### The gate -/

/-- An unsound tree has a node to blame, and it is the one that the gate finds. -/
theorem Coherent.offender_spec (source : ByteArray) {p : Place} (hp : p.Coherent) :
    (p.label.damaged = false ∧ p.offender source = none ∧ p.Sound source) ∨
      ∃ q, p.offender source = some q ∧ p.Blamed source q ∧ ¬ p.Sound source := by
  unfold offender
  by_cases hd : p.label.damaged = true
  · right
    obtain ⟨r, hr, hb⟩ := (hp p (Encloses.refl p)).1 hd
    have hsome : (p.preorder.find? isError).isSome := by
      rw [List.find?_isSome]
      exact ⟨r, mem_preorder_iff.2 hr, isError_iff.2 hb⟩
    obtain ⟨q, hq⟩ := Option.isSome_iff_exists.1 hsome
    refine ⟨q, ?_, .broken ((find?_eq_some_iff_isFirst fun _ => isError_iff).1 hq), ?_⟩
    · rw [if_pos hd, hp.firstError_eq_find?, hq]
    · exact fun hs => hs.not_broken r hr hb
  · have hwhole := hp.not_broken hd
    rw [if_neg hd, firstStrayKeyword_eq_find?]
    cases hf : p.walk.find? (isStrayKeyword source) with
    | none =>
      refine .inl ⟨by simpa using hd, rfl, ⟨hwhole, fun q hq hs => ?_⟩⟩
      rw [List.find?_eq_none] at hf
      exact hf q (mem_walk_iff.2 hq) (isStrayKeyword_iff.2 hs)
    | some q =>
      have hfirst := (find?_eq_some_iff_isFirst fun _ => isStrayKeyword_iff).1 hf
      refine .inr ⟨q, rfl, .stray hwhole hfirst, fun hs => ?_⟩
      exact hs.not_stray q (mem_walk_iff.1 (List.mem_of_find?_eq_some hf))
        (isStrayKeyword_iff.1 (List.find?_some hf))

theorem Coherent.syntaxGate_spec (source : ByteArray) {p : Place} (hp : p.Coherent) :
    (p.syntaxGate source = .ok () ∧ p.Sound source) ∨
      ∃ q, p.syntaxGate source = .error (q.fault source) ∧ p.Blamed source q ∧
        ¬ p.Sound source := by
  rcases hp.offender_spec source with ⟨hd, hnone, hsound⟩ | ⟨q, hsome, hblamed, hunsound⟩
  · refine .inl ⟨?_, hsound⟩
    simp [syntaxGate, hd, hnone]
  · refine .inr ⟨q, ?_, hblamed, hunsound⟩
    simp [syntaxGate, hsome, faultOf]

theorem Blamed.encloses {source : ByteArray} {p q : Place} (h : p.Blamed source q) :
    p.Encloses q := by
  cases h with
  | broken first =>
    obtain ⟨before, after, heq, -⟩ := first
    exact mem_preorder_iff.1 (by simp [heq])
  | stray _ first =>
    obtain ⟨before, after, heq, -⟩ := first
    exact (mem_walk_iff.1 (by simp [heq])).encloses

/-- What is reported about a located node states its row and column, counted from one. -/
theorem fault_position {source : ByteArray} {p : Place} {row column : Int}
    {rest : List Coordinate} (h : p.label.start = some (.whole row :: .whole column :: rest)) :
    (p.fault source).line? = some (1 + row) ∧ (p.fault source).column? = some (1 + column) := by
  have hrow : some (row + 1) = some (1 + row) := by rw [Int.add_comm]
  have hcolumn : some (column + 1) = some (1 + column) := by rw [Int.add_comm]
  simp only [fault, Label.position?_eq_some h]
  split
  · exact ⟨hrow, hcolumn⟩
  · split
    · exact ⟨hrow, hcolumn⟩
    · exact ⟨hrow, hcolumn⟩

end Place

namespace Grammar

open Place

/-- On a coherent tree whose nodes are located, a source is parsed exactly when
the tree is sound. Any other source is rejected, and for no other cause, at the
row and column of the node that is to blame. -/
theorem parse_ok_iff_sound (parse : ByteArray → Except String Place) (code : String) {top : Place}
    (hparse : parse code.toUTF8 = .ok top) (hcoherent : top.Coherent)
    (hlocated : ∀ q, top.Encloses q → q.label.Located) :
    ((∃ tree, (installed parse).parse code.toUTF8 = .ok tree) ↔ top.Sound code.toUTF8) ∧
      (∀ tree, (installed parse).parse code.toUTF8 = .ok tree → tree = top) ∧
      (¬ top.Sound code.toUTF8 →
        ∃ q row column rest fault, top.Blamed code.toUTF8 q ∧
          q.label.start = some (.whole row :: .whole column :: rest) ∧
          (installed parse).parse code.toUTF8 = .error (.rejected fault) ∧
          fault.line? = some (1 + row) ∧ fault.column? = some (1 + column)) := by
  rcases hcoherent.syntaxGate_spec code.toUTF8 with ⟨hgate, hsound⟩ | ⟨q, hgate, hblamed, hunsound⟩
  · have hrun : (installed parse).parse code.toUTF8 = .ok top := by
      simp only [Grammar.parse, hparse, hgate]
    refine ⟨⟨fun _ => hsound, fun _ => ⟨top, hrun⟩⟩, fun tree h => ?_, absurd hsound⟩
    rw [hrun] at h
    exact (Except.ok.inj h).symm
  · have hrun : (installed parse).parse code.toUTF8 = .error (.rejected (q.fault code.toUTF8)) := by
      simp only [Grammar.parse, hparse, hgate]
    have hno : ∀ tree, (installed parse).parse code.toUTF8 ≠ .ok tree := by
      intro tree h
      rw [hrun] at h
      cases h
    obtain ⟨row, column, rest, hstart⟩ := hlocated q hblamed.encloses
    refine ⟨⟨fun ⟨tree, h⟩ => absurd h (hno tree), fun h => absurd h hunsound⟩,
      fun tree h => absurd h (hno tree), fun _ => ?_⟩
    exact ⟨q, row, column, rest, _, hblamed, hstart, hrun, fault_position hstart⟩

/-- A call whose closing parenthesis is missing, behind an `end` that closes nothing. -/
def unclosedCall : Place :=
  .top ⟨"program", ⟨0, 8⟩, some [.whole 0, .whole 0], none, true, false, true, false⟩
    [.node ⟨"identifier", ⟨0, 3⟩, some [.whole 0, .whole 0], none, true, false, false, false⟩ [],
     .node ⟨"call", ⟨4, 8⟩, some [.whole 1, .whole 0], none, true, false, true, false⟩
      [.node ⟨"identifier", ⟨4, 7⟩, some [.whole 1, .whole 0], some "method", true, false, false,
        false⟩ [],
       .node ⟨"argument_list", ⟨7, 8⟩, some [.whole 1, .whole 3], some "arguments", true, false,
        true, false⟩
        [.node ⟨"(", ⟨7, 8⟩, some [.whole 1, .whole 3], none, false, false, false, false⟩ [],
         .node ⟨")", ⟨8, 8⟩, some [.whole 1, .whole 4], none, false, true, true, false⟩ []]]]

theorem parse_unclosedCall :
    unclosedCall.Coherent ∧ (∀ q, unclosedCall.Encloses q → q.label.Located) ∧
      ∃ q row column rest fault, unclosedCall.Blamed "end\nfoo(".toUTF8 q ∧
        q.label.start = some (.whole row :: .whole column :: rest) ∧
        (installed fun _ => .ok unclosedCall).parse "end\nfoo(".toUTF8 = .error (.rejected fault) ∧
        fault.line? = some (1 + row) ∧ fault.column? = some (1 + column) := by
  have hcoherent : unclosedCall.Coherent := by decide +kernel
  have hlocated : ∀ q, unclosedCall.Encloses q → q.label.Located := by
    simp only [← mem_preorder_iff]
    decide +kernel
  have hunsound : ¬ unclosedCall.Sound "end\nfoo(".toUTF8 := by
    intro hs
    have hbroken : ¬ ∀ q ∈ unclosedCall.preorder, ¬ q.Broken := by decide +kernel
    exact hbroken fun q hq => hs.not_broken q (mem_preorder_iff.1 hq)
  exact ⟨hcoherent, hlocated,
    (parse_ok_iff_sound (fun _ => .ok unclosedCall) "end\nfoo(" rfl hcoherent hlocated).2.2
      hunsound⟩

end Grammar

end RubyOutline
