import Mathlib.Data.List.Nodup
import Mathlib.Logic.Relation
import RubyOutline.Tree.Walk

/-!
Where places stand to each other. A place encloses what stands at or below it,
and reaches what it encloses by way of named nodes only. Walks are described by
these relations here: a walk comes to what is reached, to each place once, and a
walk from a place that is passed on the way is a contiguous part of the whole.
-/

namespace RubyOutline

mutual

/-- The places at and below a child, named or not, `i` being its index. -/
def Tree.preorder (parent : Place) (i : Nat) : Tree → List Place
  | .foreign => []
  | .node label children =>
    .inside parent i label children ::
      Tree.preorderAll (.inside parent i label children) 0 children

def Tree.preorderAll (parent : Place) (i : Nat) : List Tree → List Place
  | [] => []
  | t :: ts => t.preorder parent i ++ Tree.preorderAll parent (i + 1) ts

end

namespace Place

/-- The places at and below a place, named or not, each before what is below it. -/
def preorder (p : Place) : List Place := p :: Tree.preorderAll p 0 p.children

theorem preorderAll_eq_flatMap (parent : Place) (i : Nat) (ts : List Tree) :
    Tree.preorderAll parent i ts = (nodesFrom parent i ts).flatMap preorder := by
  induction ts generalizing i with
  | nil => rfl
  | cons t ts ih =>
    cases t with
    | node l cs =>
      rw [Tree.preorderAll, ih (i + 1), nodesFrom, List.flatMap_cons]
      rfl
    | foreign => rw [Tree.preorderAll, Tree.preorder, nodesFrom, ih (i + 1), List.nil_append]

theorem preorder_eq (p : Place) : p.preorder = p :: p.nodes.flatMap preorder := by
  rw [preorder, preorderAll_eq_flatMap, nodes]

/-! ### Children -/

theorem mem_nodesFrom {parent q : Place} {i : Nat} {ts : List Tree}
    (h : q ∈ nodesFrom parent i ts) : ∃ j l cs, q = inside parent j l cs ∧ i ≤ j := by
  induction ts generalizing i with
  | nil => simp [nodesFrom] at h
  | cons t ts ih =>
    cases t with
    | node l cs =>
      rcases List.mem_cons.1 h with rfl | h
      · exact ⟨i, l, cs, rfl, Nat.le_refl i⟩
      · obtain ⟨j, l, cs, rfl, hj⟩ := ih h
        exact ⟨j, l, cs, rfl, by omega⟩
    | foreign =>
      obtain ⟨j, l, cs, rfl, hj⟩ := ih h
      exact ⟨j, l, cs, rfl, by omega⟩

theorem parent?_of_mem_nodes {p q : Place} (h : q ∈ p.nodes) : q.parent? = some p := by
  obtain ⟨j, l, cs, rfl, -⟩ := mem_nodesFrom h
  rfl

theorem ancestors_of_mem_nodes {p q : Place} (h : q ∈ p.nodes) :
    q.ancestors = p :: p.ancestors := by
  obtain ⟨j, l, cs, rfl, -⟩ := mem_nodesFrom h
  rfl

theorem nodup_nodesFrom (parent : Place) (i : Nat) (ts : List Tree) :
    (nodesFrom parent i ts).Nodup := by
  induction ts generalizing i with
  | nil => exact List.nodup_nil
  | cons t ts ih =>
    cases t with
    | node l cs =>
      refine List.nodup_cons.2 ⟨fun h => ?_, ih (i + 1)⟩
      obtain ⟨j, l', cs', heq, hj⟩ := mem_nodesFrom h
      have hij : i = j := by
        injection heq
      omega
    | foreign => exact ih (i + 1)

theorem nodup_nodes (p : Place) : p.nodes.Nodup := nodup_nodesFrom p 0 p.children

theorem size_lt_of_mem_nodes {p q : Place} (h : q ∈ p.nodes) : q.size < p.size := by
  have hle := size_le_sizeAll h
  have heq := sizeAll_nodes p
  omega

/-- What passes from the children of every place to the place holds everywhere. -/
@[elab_as_elim]
theorem nodesInduction {motive : Place → Prop}
    (step : ∀ p, (∀ q ∈ p.nodes, motive q) → motive p) (p : Place) : motive p :=
  step p fun q _ => nodesInduction step q
termination_by p.size
decreasing_by exact size_lt_of_mem_nodes ‹_›

theorem mem_namedNodes {p q : Place} : q ∈ p.namedNodes ↔ q ∈ p.nodes ∧ q.label.named := by
  simp [namedNodes]

/-! ### What stands below a place -/

/-- A place encloses itself and whatever stands below it. -/
def Encloses (p q : Place) : Prop := Relation.ReflTransGen (fun a b => b ∈ a.nodes) p q

/-- A place reaches what it encloses if all on the way, both ends included, is named. -/
def Reaches (p q : Place) : Prop :=
  p.label.named ∧ Relation.ReflTransGen (fun a b => b ∈ a.namedNodes) p q

theorem Encloses.refl (p : Place) : p.Encloses p := Relation.ReflTransGen.refl

theorem Encloses.trans {p q r : Place} (h : p.Encloses q) (h' : q.Encloses r) : p.Encloses r :=
  Relation.ReflTransGen.trans h h'

theorem encloses_of_mem_nodes {p q : Place} (h : q ∈ p.nodes) : p.Encloses q :=
  Relation.ReflTransGen.single h

theorem Reaches.encloses {p q : Place} (h : p.Reaches q) : p.Encloses q := by
  obtain ⟨-, h⟩ := h
  induction h with
  | refl => exact Encloses.refl p
  | tail _ hb ih => exact ih.trans (encloses_of_mem_nodes (mem_namedNodes.1 hb).1)

theorem Reaches.named {p q : Place} (h : p.Reaches q) : q.label.named := by
  rcases Relation.ReflTransGen.cases_tail h.2 with rfl | ⟨r, -, hq⟩
  · exact h.1
  · exact (mem_namedNodes.1 hq).2

theorem Reaches.trans {p q r : Place} (h : p.Reaches q) (h' : q.Reaches r) : p.Reaches r :=
  ⟨h.1, h.2.trans h'.2⟩

theorem Encloses.size_le {p q : Place} (h : p.Encloses q) : q.size ≤ p.size := by
  induction h with
  | refl => exact Nat.le_refl _
  | tail _ hb ih => exact Nat.le_trans (Nat.le_of_lt (size_lt_of_mem_nodes hb)) ih

theorem not_encloses_of_mem_nodes {p q : Place} (h : q ∈ p.nodes) : ¬ q.Encloses p := by
  intro hq
  have hlt := size_lt_of_mem_nodes h
  have hle := hq.size_le
  omega

theorem mem_preorder_iff {p q : Place} : q ∈ p.preorder ↔ p.Encloses q := by
  constructor
  · intro h
    induction p using nodesInduction with
    | step p ih =>
      rw [preorder_eq] at h
      rcases List.mem_cons.1 h with rfl | h
      · exact Encloses.refl q
      · obtain ⟨r, hr, hq⟩ := List.mem_flatMap.1 h
        exact (encloses_of_mem_nodes hr).trans (ih r hr hq)
  · intro h
    induction h using Relation.ReflTransGen.head_induction_on with
    | refl =>
      rw [preorder_eq]
      exact List.mem_cons_self
    | head hr _ ih =>
      rw [preorder_eq]
      exact List.mem_cons_of_mem _ (List.mem_flatMap.2 ⟨_, hr, ih⟩)

/-! ### What a walk comes to -/

theorem walk_eq_cons {p : Place} (h : p.label.named) : p.walk = p :: p.nodes.flatMap walk := by
  rw [walk_eq, if_pos h]

theorem walk_eq_nil {p : Place} (h : ¬ p.label.named) : p.walk = [] := by
  rw [walk_eq, if_neg h]

theorem named_of_mem_walk {p q : Place} (h : q ∈ p.walk) : p.label.named := by
  by_contra hn
  simp [walk_eq_nil hn] at h

/-- A walk comes to a place by way of named nodes, and to all such places. -/
theorem mem_walk_iff {p q : Place} : q ∈ p.walk ↔ p.Reaches q := by
  constructor
  · intro h
    induction p using nodesInduction with
    | step p ih =>
      have hn := named_of_mem_walk h
      rw [walk_eq_cons hn] at h
      rcases List.mem_cons.1 h with rfl | h
      · exact ⟨hn, Relation.ReflTransGen.refl⟩
      · obtain ⟨r, hr, hq⟩ := List.mem_flatMap.1 h
        have hrq := ih r hr hq
        exact ⟨hn, Relation.ReflTransGen.head (mem_namedNodes.2 ⟨hr, hrq.1⟩) hrq.2⟩
  · rintro ⟨hn, h⟩
    induction h using Relation.ReflTransGen.head_induction_on with
    | refl =>
      rw [walk_eq_cons hn]
      exact List.mem_cons_self
    | head hr _ ih =>
      obtain ⟨hr, hrn⟩ := mem_namedNodes.1 hr
      rw [walk_eq_cons hn]
      exact List.mem_cons_of_mem _ (List.mem_flatMap.2 ⟨_, hr, ih hrn⟩)

/-- The walk from a place that is passed is a contiguous part of the whole walk. -/
theorem walk_infix_of_mem {p q : Place} (h : q ∈ p.walk) : q.walk <:+: p.walk := by
  induction p using nodesInduction with
  | step p ih =>
    have hn := named_of_mem_walk h
    rw [walk_eq_cons hn] at h ⊢
    rcases List.mem_cons.1 h with rfl | h
    · exact ⟨[], [], by simp [walk_eq_cons hn]⟩
    · obtain ⟨r, hr, hq⟩ := List.mem_flatMap.1 h
      have hrest : r.walk <:+: p.nodes.flatMap walk :=
        List.infix_of_mem_flatten (List.mem_map_of_mem hr)
      exact ((ih r hr hq).trans hrest).trans (List.suffix_cons _ _).isInfix

/-! ### The way up -/

/-- The way up from a place passes whatever encloses it, and goes on as from there. -/
theorem Encloses.lineage_suffix {p q : Place} (h : p.Encloses q) :
    p :: p.ancestors <:+ q :: q.ancestors := by
  induction h with
  | refl => exact List.suffix_refl _
  | tail _ hc ih =>
    rw [ancestors_of_mem_nodes hc]
    exact ih.trans (List.suffix_cons _ _)

/-- What a place encloses is the place itself, or has the place above it. -/
theorem Encloses.eq_or_mem_ancestors {p q : Place} (h : p.Encloses q) : p = q ∨ p ∈ q.ancestors :=
  List.mem_cons.1 (h.lineage_suffix.subset List.mem_cons_self)

theorem Encloses.length_ancestors_le {p q : Place} (h : p.Encloses q) :
    p.ancestors.length ≤ q.ancestors.length := by
  have hle := h.lineage_suffix.length_le
  simpa using hle

theorem length_ancestors_lt {p a : Place} (h : a ∈ p.ancestors) :
    a.ancestors.length < p.ancestors.length := by
  induction p with
  | top l cs => simp [ancestors] at h
  | inside parent i l cs ih =>
    rcases List.mem_cons.1 h with rfl | h
    · simp [ancestors]
    · have hlt := ih h
      simp only [ancestors, List.length_cons]
      omega

theorem not_encloses_of_mem_ancestors {p a : Place} (h : a ∈ p.ancestors) : ¬ p.Encloses a := by
  intro ha
  have hlt := length_ancestors_lt h
  have hle := ha.length_ancestors_le
  omega

/-- Only one child of a place encloses a given place. -/
theorem eq_of_encloses {p a b x : Place} (ha : a ∈ p.nodes) (hb : b ∈ p.nodes)
    (hax : a.Encloses x) (hbx : b.Encloses x) : a = b := by
  have hlen : (a :: a.ancestors).length = (b :: b.ancestors).length := by
    rw [ancestors_of_mem_nodes ha, ancestors_of_mem_nodes hb]
    rfl
  have heq : a :: a.ancestors = b :: b.ancestors := by
    rcases List.suffix_or_suffix_of_suffix hax.lineage_suffix hbx.lineage_suffix with h | h
    · exact h.eq_of_length hlen
    · exact (h.eq_of_length hlen.symm).symm
  exact (List.cons.inj heq).1

/-- A walk comes to no place twice. -/
theorem nodup_walk (p : Place) : p.walk.Nodup := by
  induction p using nodesInduction with
  | step p ih =>
    by_cases hn : p.label.named
    · rw [walk_eq_cons hn]
      refine List.nodup_cons.2 ⟨fun h => ?_, List.nodup_flatMap.2 ⟨ih, ?_⟩⟩
      · obtain ⟨r, hr, hp⟩ := List.mem_flatMap.1 h
        exact not_encloses_of_mem_nodes hr (mem_walk_iff.1 hp).encloses
      · -- What two children both come to would be enclosed by both.
        refine (nodup_nodes p).pairwise_of_forall_ne fun a ha b hb hab => ?_
        refine List.disjoint_left.2 fun x hxa hxb => hab ?_
        exact eq_of_encloses ha hb (mem_walk_iff.1 hxa).encloses (mem_walk_iff.1 hxb).encloses
    · rw [walk_eq_nil hn]
      exact List.nodup_nil

/-- Of two places that are walked, one that encloses the other also reaches it. -/
theorem reaches_of_encloses {p a b : Place} (ha : p.Reaches a) (hb : p.Reaches b)
    (h : a.Encloses b) : a.Reaches b := by
  induction h with
  | refl => exact ⟨ha.named, Relation.ReflTransGen.refl⟩
  | @tail c b hc hbc ih =>
    rcases Relation.ReflTransGen.cases_tail hb.2 with rfl | ⟨d, hd, hbd⟩
    · -- The walk would begin below the place that encloses its start.
      exact absurd (ha.encloses.trans hc) (not_encloses_of_mem_nodes hbc)
    · have hcd : d = c := by
        have hparent := parent?_of_mem_nodes (mem_namedNodes.1 hbd).1
        rw [parent?_of_mem_nodes hbc] at hparent
        exact (Option.some.inj hparent).symm
      subst hcd
      exact ⟨ha.named, (ih ⟨hb.1, hd⟩).2.tail hbd⟩

/-- What stands on the way to a place that is enclosed encloses it. -/
theorem Encloses.of_mem_ancestors {p q a : Place} (h : p.Encloses q) (ha : a ∈ q.ancestors)
    (hpa : p.Encloses a) : a.Encloses q := by
  induction h with
  | refl => exact absurd hpa (not_encloses_of_mem_ancestors ha)
  | @tail b c _ hc ih =>
    rw [ancestors_of_mem_nodes hc] at ha
    rcases List.mem_cons.1 ha with rfl | ha
    · exact encloses_of_mem_nodes hc
    · exact (ih ha).tail hc

/-- What stands on the way to a place that is reached is reached itself, and reaches it. -/
theorem Reaches.of_mem_ancestors {p q a : Place} (h : p.Reaches q) (ha : a ∈ q.ancestors)
    (hpa : p.Encloses a) : p.Reaches a ∧ a.Reaches q := by
  obtain ⟨hn, h⟩ := h
  induction h with
  | refl => exact absurd hpa (not_encloses_of_mem_ancestors ha)
  | @tail b c hb hc ih =>
    have hpb : p.Reaches b := ⟨hn, hb⟩
    rw [ancestors_of_mem_nodes (mem_namedNodes.1 hc).1] at ha
    rcases List.mem_cons.1 ha with rfl | ha
    · exact ⟨hpb, hpb.named, Relation.ReflTransGen.single hc⟩
    · obtain ⟨hpa, hab⟩ := ih ha
      exact ⟨hpa, hab.1, hab.2.tail hc⟩

/-- A place is reached if all that stands between, both ends included, is named. -/
theorem reaches_iff_forall_named {p q : Place} :
    p.Reaches q ↔ p.Encloses q ∧ ∀ r, p.Encloses r → r.Encloses q → r.label.named = true := by
  constructor
  · intro h
    refine ⟨h.encloses, fun r hpr hrq => ?_⟩
    obtain rfl | hr := hrq.eq_or_mem_ancestors
    · exact h.named
    · exact (h.of_mem_ancestors hr hpr).1.named
  · rintro ⟨h, hnamed⟩
    induction h with
    | refl => exact ⟨hnamed p (Encloses.refl p) (Encloses.refl p), Relation.ReflTransGen.refl⟩
    | @tail c q hc hq ih =>
      have hcq : c.Encloses q := encloses_of_mem_nodes hq
      have hpc : p.Reaches c := ih fun r hpr hrc => hnamed r hpr (hrc.trans hcq)
      have hqn : q.label.named = true := hnamed q (hc.tail hq) (Encloses.refl q)
      exact ⟨hpc.1, hpc.2.tail (mem_namedNodes.2 ⟨hq, hqn⟩)⟩

/-! ### Addresses -/

theorem length_address (p : Place) : p.address.length = p.ancestors.length := by
  induction p with
  | top l cs => rfl
  | inside parent i l cs ih => simp [address, ancestors, ih]

theorem length_address_lt {p q r : Place} (h : p.Encloses q) (hr : r ∈ q.nodes) :
    p.address.length < r.address.length := by
  have hle := h.length_ancestors_le
  have hr := ancestors_of_mem_nodes hr
  rw [length_address, length_address, hr, List.length_cons]
  omega

theorem eq_of_mem_nodesFrom {parent a b : Place} {i : Nat} {ts : List Tree}
    (ha : a ∈ nodesFrom parent i ts) (hb : b ∈ nodesFrom parent i ts)
    (h : a.index? = b.index?) : a = b := by
  induction ts generalizing i with
  | nil => contradiction
  | cons t ts ih =>
    cases t with
    | foreign => exact ih ha hb
    | node l cs =>
      -- What follows the first child has a larger index.
      have hlater : ∀ q ∈ nodesFrom parent (i + 1) ts, q.index? ≠ some i := by
        intro q hq heq
        obtain ⟨j, l, cs, rfl, hj⟩ := mem_nodesFrom hq
        have hji : j = i := Option.some.inj heq
        omega
      rcases List.mem_cons.1 ha with rfl | ha
      · rcases List.mem_cons.1 hb with rfl | hb
        · rfl
        · exact absurd h.symm (hlater b hb)
      · rcases List.mem_cons.1 hb with rfl | hb
        · exact absurd h (hlater a ha)
        · exact ih ha hb

/-- A node fills a field if its parent finds it there. -/
theorem fills_iff {a q : Place} (hq : q ∈ a.nodes) (name : String) :
    q.fills name = true ↔ a.field? name = some q := by
  rw [fills, parent?_of_mem_nodes hq]
  cases hfield : a.field? name with
  | none => simp [hfield]
  | some r =>
    simp only [hfield, beq_iff_eq, Option.some.injEq]
    exact ⟨eq_of_mem_nodesFrom (mem_nodes_of_field? hfield) hq, congrArg index?⟩

/-- Places that a place encloses are told apart by their addresses. -/
theorem eq_of_address_eq {p a b : Place} (ha : p.Encloses a) (hb : p.Encloses b)
    (h : a.address = b.address) : a = b := by
  have hlength : a.address.length = b.address.length := by rw [h]
  induction ha generalizing b with
  | refl =>
    rcases Relation.ReflTransGen.cases_tail hb with rfl | ⟨d, hd, hbd⟩
    · rfl
    · have hlt := length_address_lt hd hbd
      omega
  | @tail c a hc hac ih =>
    rcases Relation.ReflTransGen.cases_tail hb with rfl | ⟨d, hd, hbd⟩
    · have hlt := length_address_lt hc hac
      omega
    · obtain ⟨i, l, cs, rfl, -⟩ := mem_nodesFrom hac
      obtain ⟨j, l', cs', rfl, -⟩ := mem_nodesFrom hbd
      obtain ⟨hij, hcd⟩ := List.cons.inj h
      obtain rfl := ih hd hcd (congrArg List.length hcd)
      exact eq_of_mem_nodesFrom hac hbd (congrArg some hij)

end Place

end RubyOutline
