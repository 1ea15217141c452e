import Mathlib.Logic.Function.Iterate
import RubyOutline.Proofs.Lineage
import RubyOutline.SyntaxGate

/-!
The search for an error, on trees whose marks need not mean anything. It passes over whatever hangs
from a node that is not marked as damaged, so it finds the first error, in the order of all nodes,
among those that nothing hides: every node above them is marked. A node is looked at before its
mark is, so an error that is not marked itself is found all the same.
-/

namespace RubyOutline

namespace Place

variable {p q a : Place}

/-- A node that shows a syntax error. -/
def Broken (p : Place) : Prop := p.type = "ERROR" ∨ p.label.missing = true

/-- The place is the first of a list that has a property. -/
def IsFirst (property : Place → Prop) (ps : List Place) (q : Place) : Prop :=
  ∃ before after, ps = before ++ q :: after ∧ property q ∧ ∀ r ∈ before, ¬ property r

/-- A node above which, up to a place that encloses it, all are marked as damaged. -/
def Exposes (p q : Place) : Prop := ∀ a ∈ q.ancestors, p.Encloses a → a.label.damaged = true

instance (p : Place) : Decidable p.Broken := inferInstanceAs (Decidable (_ ∨ _))

theorem isError_iff : p.isError = true ↔ p.Broken := by
  simp [isError, Broken]

theorem find?_eq_some_iff_isFirst {test : Place → Bool} {property : Place → Prop}
    (htest : ∀ p, test p = true ↔ property p) {ps : List Place} :
    ps.find? test = some q ↔ IsFirst property ps q := by
  simp only [List.find?_eq_some_iff_append, IsFirst, ← htest, Bool.not_eq_true', Bool.not_eq_true]
  constructor
  · rintro ⟨hq, before, after, heq, hbefore⟩
    exact ⟨before, after, heq, hq, hbefore⟩
  · rintro ⟨before, after, heq, hq, hbefore⟩
    exact ⟨hq, before, after, heq, hbefore⟩

/-! ### What is not hidden -/

theorem exposes_refl (p : Place) : p.Exposes p :=
  fun _ ha hpa => absurd hpa (not_encloses_of_mem_ancestors ha)

/-- What hangs from a child is not hidden from the place if the place is marked, and it is not
hidden from the child. -/
theorem exposes_iff_of_mem_nodes {c : Place} (hc : c ∈ p.nodes) (hq : c.Encloses q) :
    p.Exposes q ↔ p.label.damaged = true ∧ c.Exposes q := by
  have hpc := encloses_of_mem_nodes hc
  constructor
  · intro h
    refine ⟨?_, fun a ha hca => h a ha (hpc.trans hca)⟩
    obtain rfl | hp := (hpc.trans hq).eq_or_mem_ancestors
    · exact absurd hq (not_encloses_of_mem_nodes hc)
    · exact h p hp (Encloses.refl p)
  · rintro ⟨hp, h⟩ a ha hpa
    obtain rfl | ⟨c', hc', hc'a⟩ := Relation.ReflTransGen.cases_head hpa
    · exact hp
    · -- Both children enclose the place, so they are the same.
      have haq : a.Encloses q := (hpc.trans hq).of_mem_ancestors ha hpa
      obtain rfl := eq_of_encloses hc hc' hq (Encloses.trans hc'a haq)
      exact h a ha hc'a

open Classical in
/-- The places at and below a place that are not hidden from it. -/
noncomputable def exposed (p : Place) : List Place := p.preorder.filter (p.Exposes ·)

theorem exposed_eq (p : Place) :
    p.exposed = p :: if p.label.damaged then p.nodes.flatMap exposed else [] := by
  classical
  have hchild (c : Place) (hc : c ∈ p.nodes) :
      c.preorder.filter (p.Exposes ·) = if p.label.damaged then c.exposed else [] := by
    have hsame : c.preorder.filter (p.Exposes ·) =
        c.preorder.filter (fun q => p.label.damaged && decide (c.Exposes q)) :=
      List.filter_congr fun q hq => by
        simp [exposes_iff_of_mem_nodes hc (mem_preorder_iff.1 hq)]
    rw [hsame]
    cases p.label.damaged <;> simp [exposed]
  rw [exposed, preorder_eq, List.filter_cons_of_pos (by simpa using exposes_refl p),
    List.filter_flatMap, List.flatMap_congr hchild]
  cases p.label.damaged <;> simp

theorem firstErrorIn_eq_find? (agenda : List Place) :
    firstErrorIn agenda = (agenda.flatMap exposed).find? isError := by
  fun_induction firstErrorIn agenda with
  | case1 => rfl
  | case2 p agenda he => simp [exposed_eq p, he]
  | case3 p agenda he hd ih => simp [ih, exposed_eq p, he, hd]
  | case4 p agenda he hd ih => simp [ih, exposed_eq p, he, hd]

open Classical in
theorem firstError_eq_find? (p : Place) :
    p.firstError = p.preorder.find? fun q => q.isError && decide (p.Exposes q) := by
  rw [firstError, firstErrorIn_eq_find?, List.flatMap_singleton, exposed, List.find?_filter]
  congr 1
  funext q
  simp [Bool.and_comm]

end Place

/-! ### The search as a loop -/

/-- A search that is under way. -/
inductive PendingSearch where
  /-- The places to go on with, the next one first. -/
  | looking (agenda : List Place)
  | settled (found : Option Place)

namespace PendingSearch

open Place

/-- One turn of the loop. -/
def turn : PendingSearch → PendingSearch
  | settled found => settled found
  | looking [] => settled none
  | looking (p :: agenda) =>
    if p.isError then settled (some p)
    else if p.label.damaged then looking (p.nodes ++ agenda)
    else looking agenda

/-- A turn ends the search with its result, or leaves less to be searched for the same result. -/
theorem turn_cases (agenda : List Place) :
    (looking agenda).turn = settled (firstErrorIn agenda) ∨
      ∃ rest, (looking agenda).turn = looking rest ∧ firstErrorIn rest = firstErrorIn agenda ∧
        sizeAll rest < sizeAll agenda := by
  cases agenda with
  | nil => exact .inl (by rw [turn, firstErrorIn])
  | cons p agenda =>
    rw [turn, firstErrorIn, sizeAll_cons]
    by_cases he : p.isError = true
    · exact .inl (by rw [if_pos he, if_pos he])
    · right
      rw [if_neg he, if_neg he]
      by_cases hd : p.label.damaged = true
      · have hsize := sizeAll_nodes p
        rw [if_pos hd, if_pos hd]
        refine ⟨p.nodes ++ agenda, rfl, rfl, ?_⟩
        rw [sizeAll_append]
        omega
      · have hsize := size_pos p
        rw [if_neg hd, if_neg hd]
        exact ⟨agenda, rfl, rfl, by omega⟩

/-- A search is over when it has had a turn for every node that may come, and one more. -/
theorem iterate_turn_looking {agenda : List Place} {n : Nat} (h : sizeAll agenda < n) :
    turn^[n] (looking agenda) = settled (firstErrorIn agenda) := by
  induction n generalizing agenda with
  | zero => omega
  | succ n ih =>
    rw [Function.iterate_succ_apply]
    obtain hsettled | ⟨rest, hrest, hfound, hsize⟩ := turn_cases agenda
    · rw [hsettled]
      exact Function.iterate_fixed rfl n
    · rw [hrest, ih (by omega), hfound]

end PendingSearch

namespace Place

/-- Whatever is marked and whatever is broken, the search comes to an end, and what it finds is the
first broken node, in the order of all nodes, above which every node is marked as damaged. It finds
none if there is no such node, and only then. -/
theorem firstError_decided (p : Place) :
    (∀ q, p.firstError = some q ↔ IsFirst (fun r => r.Broken ∧ p.Exposes r) p.preorder q) ∧
      (p.firstError = none ↔ ¬ ∃ q, p.Encloses q ∧ q.Broken ∧ p.Exposes q) ∧
      ∃ n ≤ p.size + 1, PendingSearch.turn^[n] (.looking [p]) = .settled p.firstError := by
  classical
  have htest (q : Place) : (q.isError && decide (p.Exposes q)) = true ↔ q.Broken ∧ p.Exposes q := by
    simp [isError_iff]
  have hfirst (q : Place) :
      p.firstError = some q ↔ IsFirst (fun r => r.Broken ∧ p.Exposes r) p.preorder q := by
    rw [firstError_eq_find?]
    exact find?_eq_some_iff_isFirst htest
  have hnone : p.firstError = none ↔ ¬ ∃ q, p.Encloses q ∧ q.Broken ∧ p.Exposes q := by
    rw [firstError_eq_find?]
    simp [mem_preorder_iff, isError_iff]
  exact ⟨hfirst, hnone, p.size + 1, Nat.le_refl _,
    PendingSearch.iterate_turn_looking (by simp [sizeAll])⟩

end Place

end RubyOutline
