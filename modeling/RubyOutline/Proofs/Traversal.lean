import Mathlib.Logic.Function.Iterate
import RubyOutline.Proofs.Lineage

/-!
A walk as a loop and as a recursion. The loop has places on an agenda: it takes the first of them,
visits it, and puts the named nodes below it in front of the others. One turn visits the first of
the places that are still to come and leaves the rest to come, so the loop is over after as many
turns as there are places to visit, and what it has accumulated by then is what the recursion over
the tree accumulates.
-/

namespace RubyOutline

/-! ### The recursion -/

mutual

/-- Visits a child and then, from left to right, the children that it has itself, `i` being its
index. What is no named node is passed over, with all that hangs from it. -/
def Tree.fold {σ : Type} (visit : σ → Place → σ) (parent : Place) (i : Nat) (acc : σ) : Tree → σ
  | .foreign => acc
  | .node label children =>
    if label.named then
      Tree.foldAll visit (.inside parent i label children) 0
        (visit acc (.inside parent i label children)) children
    else acc

/-- Visits some children one after the other, `i` being the index of the first. -/
def Tree.foldAll {σ : Type} (visit : σ → Place → σ) (parent : Place) (i : Nat) (acc : σ) :
    List Tree → σ
  | [] => acc
  | t :: ts => Tree.foldAll visit parent (i + 1) (t.fold visit parent i acc) ts

end

namespace Place

variable {σ : Type} {visit : σ → Place → σ} {acc : σ} {p q : Place}

/-- Visits a place and then, from left to right, its children, if the place is named. -/
def fold (visit : σ → Place → σ) (acc : σ) (p : Place) : σ :=
  if p.label.named then Tree.foldAll visit p 0 (visit acc p) p.children else acc

/-- The recursion from a start that need not be a node. -/
def foldFrom (visit : σ → Place → σ) (acc : σ) : Option Place → σ
  | none => acc
  | some p => p.fold visit acc

/-- The walk from a start that need not be a node. -/
def foldWalkFrom (visit : σ → Place → σ) (acc : σ) : Option Place → σ
  | none => acc
  | some p => p.foldWalk visit acc

/-- The places visited from a start that need not be a node. -/
def walkFrom (start : Option Place) : List Place := start.toList.flatMap walk

end Place

mutual

theorem Tree.fold_eq_foldl_walk {σ : Type} (visit : σ → Place → σ) (parent : Place) (i : Nat)
    (acc : σ) (t : Tree) : t.fold visit parent i acc = (t.walk parent i).foldl visit acc := by
  cases t with
  | foreign => rfl
  | node label children =>
    rw [Tree.fold, Tree.walk]
    split
    · rw [List.foldl_cons, Tree.foldAll_eq_foldl_walkAll]
    · rfl

theorem Tree.foldAll_eq_foldl_walkAll {σ : Type} (visit : σ → Place → σ) (parent : Place) (i : Nat)
    (acc : σ) (ts : List Tree) :
    Tree.foldAll visit parent i acc ts = (Tree.walkAll parent i ts).foldl visit acc := by
  cases ts with
  | nil => rfl
  | cons t ts =>
    rw [Tree.foldAll, Tree.walkAll, List.foldl_append, Tree.fold_eq_foldl_walk,
      Tree.foldAll_eq_foldl_walkAll]

end

namespace Place

variable {σ : Type} {visit : σ → Place → σ} {acc : σ} {p q : Place}

theorem fold_eq_foldl_walk (visit : σ → Place → σ) (acc : σ) (p : Place) :
    p.fold visit acc = p.walk.foldl visit acc := by
  rw [fold, walk]
  split
  · rw [List.foldl_cons, Tree.foldAll_eq_foldl_walkAll]
  · rfl

theorem foldFrom_eq_foldl (visit : σ → Place → σ) (acc : σ) (start : Option Place) :
    foldFrom visit acc start = (walkFrom start).foldl visit acc := by
  cases start with
  | none => rfl
  | some p => simp [foldFrom, walkFrom, fold_eq_foldl_walk]

theorem foldWalkFrom_eq_foldl (visit : σ → Place → σ) (acc : σ) (start : Option Place) :
    foldWalkFrom visit acc start = (walkFrom start).foldl visit acc := by
  cases start with
  | none => rfl
  | some p => simp [foldWalkFrom, walkFrom, foldWalk_eq_foldl]

/-! ### What is visited -/

theorem flatMap_walk_filter_named (ps : List Place) :
    (ps.filter (·.label.named)).flatMap walk = ps.flatMap walk := by
  induction ps with
  | nil => rfl
  | cons p ps ih =>
    by_cases hp : p.label.named = true
    · simp [hp, ih]
    · simp [hp, ih, walk_eq_nil hp]

theorem mem_walkFrom_iff {start : Option Place} :
    q ∈ walkFrom start ↔ ∃ p, start = some p ∧ p.Reaches q := by
  cases start with
  | none => simp [walkFrom]
  | some p => simp [walkFrom, mem_walk_iff]

theorem nodup_walkFrom (start : Option Place) : (walkFrom start).Nodup := by
  cases start with
  | none => exact List.nodup_nil
  | some p => simpa [walkFrom] using nodup_walk p

end Place

/-! ### The loop -/

/-- A walk that is under way. -/
structure PendingWalk (σ : Type) where
  /-- The places to go on with, the next one first. -/
  agenda : List Place
  acc : σ
  named : ∀ p ∈ agenda, p.label.named = true

namespace PendingWalk

open Place

variable {σ : Type}

/-- A walk that begins. There is nothing to visit if it begins at a token, or at no node. -/
def begin (acc : σ) (start : Option Place) : PendingWalk σ where
  agenda := start.toList.filter (·.label.named)
  acc
  named _ hp := (List.mem_filter.1 hp).2

/-- One turn of the loop. -/
def turn (visit : σ → Place → σ) : PendingWalk σ → PendingWalk σ
  | ⟨[], acc, named⟩ => ⟨[], acc, named⟩
  | ⟨p :: agenda, acc, named⟩ =>
    { agenda := p.namedNodes ++ agenda
      acc := visit acc p
      named := fun q hq => (List.mem_append.1 hq).elim (fun h => (mem_namedNodes.1 h).2)
        fun h => named q (List.mem_cons_of_mem _ h) }

/-- The places that are still to be visited, in visiting order. -/
def toCome (w : PendingWalk σ) : List Place := w.agenda.flatMap walk

variable (visit : σ → Place → σ)

/-- A turn does nothing if nothing is to come, and otherwise visits what comes first. -/
theorem turn_cases (w : PendingWalk σ) :
    (w.toCome = [] ∧ w.turn visit = w) ∨
      ∃ p, w.toCome = p :: (w.turn visit).toCome ∧ (w.turn visit).acc = visit w.acc p := by
  obtain ⟨_ | ⟨p, agenda⟩, acc, named⟩ := w
  · exact .inl ⟨rfl, rfl⟩
  · refine .inr ⟨p, ?_, rfl⟩
    simp only [toCome, turn, List.flatMap_append, List.flatMap_cons, namedNodes]
    rw [walk_eq_cons (named p List.mem_cons_self), flatMap_walk_filter_named, List.cons_append]

/-- After some turns as many places have been visited, and the others are still to come. -/
theorem iterate_turn (n : Nat) (w : PendingWalk σ) :
    ((turn visit)^[n] w).toCome = w.toCome.drop n ∧
      ((turn visit)^[n] w).acc = (w.toCome.take n).foldl visit w.acc := by
  induction n generalizing w with
  | zero => exact ⟨rfl, rfl⟩
  | succ n ih =>
    rw [Function.iterate_succ_apply]
    obtain ⟨hnil, hturn⟩ | ⟨p, hcons, hacc⟩ := turn_cases visit w
    · rw [hturn]
      obtain ⟨htoCome, hacc⟩ := ih w
      simp only [hnil, List.drop_nil, List.take_nil] at htoCome hacc ⊢
      exact ⟨htoCome, hacc⟩
    · obtain ⟨htoCome, hvisited⟩ := ih (w.turn visit)
      rw [htoCome, hvisited, hcons, hacc, List.drop_succ_cons, List.take_succ_cons,
        List.foldl_cons]
      exact ⟨rfl, rfl⟩

theorem agenda_eq_nil_iff {w : PendingWalk σ} : w.agenda = [] ↔ w.toCome = [] := by
  obtain ⟨_ | ⟨p, agenda⟩, acc, named⟩ := w
  · exact ⟨fun _ => rfl, fun _ => rfl⟩
  · simp [toCome, walk_eq_cons (named p List.mem_cons_self)]

theorem toCome_begin (acc : σ) (start : Option Place) : (begin acc start).toCome = walkFrom start :=
  flatMap_walk_filter_named start.toList

/-- A walk that has begun is over after as many turns as there are places to visit. -/
theorem agenda_iterate_turn_begin (acc : σ) (start : Option Place) (n : Nat) :
    ((turn visit)^[n] (begin acc start)).agenda = [] ↔ (walkFrom start).length ≤ n := by
  rw [agenda_eq_nil_iff, (iterate_turn visit n _).1, toCome_begin, List.drop_eq_nil_iff]

theorem acc_iterate_turn_begin (acc : σ) (start : Option Place) :
    ((turn visit)^[(walkFrom start).length] (begin acc start)).acc =
      (walkFrom start).foldl visit acc := by
  rw [(iterate_turn visit _ _).2, toCome_begin, List.take_length]
  rfl

end PendingWalk

namespace Place

open PendingWalk

/-- From whatever a walk is started, the loop comes to an end, after one turn for every place that
it visits; and it accumulates what the recursion over the tree does, whatever a visit does. It
visits no place twice, and just those that the start encloses with nothing but named nodes from the
one to the other. -/
theorem foldWalkFrom_recursive (start : Option Place) :
    ∃ visited : List Place, visited.Nodup ∧
      (∀ q, q ∈ visited ↔ ∃ p, start = some p ∧ p.Encloses q ∧
        ∀ r, p.Encloses r → r.Encloses q → r.label.named = true) ∧
      ∀ {σ : Type} (visit : σ → Place → σ) (acc : σ),
        foldWalkFrom visit acc start = visited.foldl visit acc ∧
        foldWalkFrom visit acc start = foldFrom visit acc start ∧
        (∀ n, ((turn visit)^[n] (begin acc start)).agenda = [] ↔ visited.length ≤ n) ∧
        ((turn visit)^[visited.length] (begin acc start)).acc = foldWalkFrom visit acc start := by
  refine ⟨walkFrom start, nodup_walkFrom start, fun q => ?_, fun visit acc => ?_⟩
  · simp only [mem_walkFrom_iff, reaches_iff_forall_named]
  · have hfold := foldWalkFrom_eq_foldl visit acc start
    exact ⟨hfold, hfold.trans (foldFrom_eq_foldl visit acc start).symm,
      agenda_iterate_turn_begin visit acc start,
      (acc_iterate_turn_begin visit acc start).trans hfold.symm⟩

end Place

end RubyOutline
