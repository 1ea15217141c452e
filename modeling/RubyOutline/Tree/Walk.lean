import RubyOutline.Tree.Basic

/-!
Walks over a tree. A walk visits a named node and then, from left to right, what
is named below it; whatever is not named is passed over together with all that
hangs from it. The recursive definition lists the visited places and is the one
to reason with. The program folds over the same places with an agenda of places
still to come, so that the depth of a tree costs no stack; `foldWalk_eq_foldl`
says that this makes no difference.
-/

namespace RubyOutline

mutual

/-- The places visited at and below a child, `i` being its index. -/
def Tree.walk (parent : Place) (i : Nat) : Tree → List Place
  | .foreign => []
  | .node label children =>
    if label.named then
      .inside parent i label children ::
        Tree.walkAll (.inside parent i label children) 0 children
    else []

/-- The places visited at and below some children, `i` being the index of the
first. -/
def Tree.walkAll (parent : Place) (i : Nat) : List Tree → List Place
  | [] => []
  | t :: ts => t.walk parent i ++ Tree.walkAll parent (i + 1) ts

end

namespace Place

/-- The places visited from a place on, in visiting order. -/
def walk (p : Place) : List Place :=
  if p.label.named then p :: Tree.walkAll p 0 p.children else []

/-- Visits the places of an agenda and all that is named below them. -/
def foldAgenda {σ : Type} (visit : σ → Place → σ) : List Place → σ → σ
  | [], acc => acc
  | p :: agenda, acc =>
    if p.label.named then foldAgenda visit (p.nodes ++ agenda) (visit acc p)
    else foldAgenda visit agenda acc
termination_by agenda => sizeAll agenda
decreasing_by
  · have := sizeAll_nodes p
    simp only [sizeAll_append, sizeAll_cons]
    omega
  · have := size_pos p
    simp only [sizeAll_cons]
    omega

/-- Folds over the places visited from a place on. -/
def foldWalk {σ : Type} (visit : σ → Place → σ) (acc : σ) (p : Place) : σ :=
  foldAgenda visit [p] acc

theorem walkAll_eq_flatMap (parent : Place) (i : Nat) (ts : List Tree) :
    Tree.walkAll parent i ts = (nodesFrom parent i ts).flatMap walk := by
  induction ts generalizing i with
  | nil => rfl
  | cons t ts ih =>
    cases t with
    | node l cs =>
      rw [Tree.walkAll, ih (i + 1), nodesFrom, List.flatMap_cons]
      rfl
    | foreign => simp [Tree.walkAll, Tree.walk, nodesFrom, ih]

/-- A walk is the place itself and then the walks of its children in order. -/
theorem walk_eq (p : Place) :
    p.walk = if p.label.named then p :: p.nodes.flatMap walk else [] := by
  rw [walk, walkAll_eq_flatMap, nodes]

theorem foldAgenda_eq_foldl {σ : Type} (visit : σ → Place → σ) (agenda : List Place) (acc : σ) :
    foldAgenda visit agenda acc = (agenda.flatMap walk).foldl visit acc := by
  fun_induction foldAgenda visit agenda acc with
  | case1 acc => rfl
  | case2 p agenda acc h ih => simp [ih, walk_eq p, h]
  | case3 p agenda acc h ih => simp [ih, walk_eq p, h]

theorem foldWalk_eq_foldl {σ : Type} (visit : σ → Place → σ) (acc : σ) (p : Place) :
    foldWalk visit acc p = p.walk.foldl visit acc := by
  simp [foldWalk, foldAgenda_eq_foldl]

/-- The visited places that satisfy a test, in visiting order. -/
def collect (test : Place → Bool) (p : Place) : List Place :=
  (foldWalk (fun found q => if test q then found.push q else found) #[] p).toList

theorem foldl_push_if {test : Place → Bool} (ps : List Place) (found : Array Place) :
    (ps.foldl (fun found q => if test q then found.push q else found) found).toList =
      found.toList ++ ps.filter test := by
  induction ps generalizing found with
  | nil => simp
  | cons p ps ih =>
    by_cases h : test p = true <;> simp [ih, h]

theorem collect_eq_filter (test : Place → Bool) (p : Place) :
    collect test p = p.walk.filter test := by
  simp [collect, foldWalk_eq_foldl, foldl_push_if]

end Place

end RubyOutline
