import RubyOutline.Proofs.Correspondence
import RubyOutline.Proofs.Lineage

/-!
Trees with other labels. A relabelling chooses a label for every place and leaves alone
which nodes there are and how they hang together. One that keeps what nodes are, which
parts they play and what they say keeps everything that an outline shows: the outline of
the relabelled tree is the same outline, located by the same places.
-/

namespace RubyOutline

mutual

/-- A child of a place with the labels that are chosen, `i` being its index. -/
def Tree.relabel (f : Place → Label) (parent : Place) (i : Nat) : Tree → Tree
  | .foreign => .foreign
  | .node label children =>
    .node (f (.inside parent i label children))
      (Tree.relabelAll f (.inside parent i label children) 0 children)

def Tree.relabelAll (f : Place → Label) (parent : Place) (i : Nat) : List Tree → List Tree
  | [] => []
  | t :: ts => t.relabel f parent i :: Tree.relabelAll f parent (i + 1) ts

end

namespace Place

/-- The same place in the tree with the labels that are chosen. -/
def relabel (f : Place → Label) : Place → Place
  | top label children =>
    top (f (top label children)) (Tree.relabelAll f (top label children) 0 children)
  | inside parent i label children =>
    inside (parent.relabel f) i (f (inside parent i label children))
      (Tree.relabelAll f (inside parent i label children) 0 children)

/-! ### Shape -/

section Shape

variable {f : Place → Label}

@[simp] theorem label_relabel (p : Place) : (p.relabel f).label = f p := by
  cases p <;> rfl

theorem children_relabel (p : Place) :
    (p.relabel f).children = Tree.relabelAll f p 0 p.children := by
  cases p <;> rfl

@[simp] theorem parent?_relabel (p : Place) :
    (p.relabel f).parent? = p.parent?.map (relabel f) := by
  cases p <;> rfl

@[simp] theorem index?_relabel (p : Place) : (p.relabel f).index? = p.index? := by
  cases p <;> rfl

theorem nodesFrom_relabelAll (p : Place) (i : Nat) (ts : List Tree) :
    nodesFrom (p.relabel f) i (Tree.relabelAll f p i ts) = (nodesFrom p i ts).map (relabel f) := by
  induction ts generalizing i with
  | nil => rfl
  | cons t ts ih =>
    cases t with
    | node l cs =>
      rw [Tree.relabelAll, Tree.relabel, nodesFrom, nodesFrom, ih, List.map_cons]
      rfl
    | foreign => exact ih (i + 1)

@[simp] theorem nodes_relabel (p : Place) : (p.relabel f).nodes = p.nodes.map (relabel f) := by
  rw [nodes, children_relabel, nodesFrom_relabelAll, nodes]

end Shape

/-! ### Parts -/

/-- The labels that are chosen keep which parts nodes play and which nodes are named. -/
structure KeepsShape (f : Place → Label) : Prop where
  field : ∀ p, (f p).field = p.label.field
  named : ∀ p, (f p).named = p.label.named
  isSealed : ∀ p, (f p).sealed = p.label.sealed

namespace KeepsShape

variable {f : Place → Label} (h : KeepsShape f)

include h

theorem field?_relabel (p : Place) (name : String) :
    (p.relabel f).field? name = (p.field? name).map (relabel f) := by
  unfold field?
  rw [label_relabel, h.isSealed]
  split
  · rfl
  · rw [nodes_relabel, List.find?_map]
    congr 2
    funext q
    rw [Function.comp_apply, label_relabel, h.field]

theorem fills_relabel (p : Place) (name : String) : (p.relabel f).fills name = p.fills name := by
  unfold fills
  rw [parent?_relabel]
  cases p.parent? with
  | none => rfl
  | some parent =>
    simp only [Option.map_some, h.field?_relabel]
    -- Nodes are told apart by their indices, and labels do not touch these.
    cases parent.field? name with
    | none => rfl
    | some q => simp only [Option.map_some, index?_relabel]

theorem walk_relabel (p : Place) : (p.relabel f).walk = p.walk.map (relabel f) := by
  induction p using nodesInduction with
  | step p ih =>
    rw [walk_eq, walk_eq p, label_relabel, h.named]
    split
    · rw [nodes_relabel, List.flatMap_map, List.map_cons, List.map_flatMap]
      congr 1
      exact List.flatMap_congr ih
    · rfl

theorem members_relabel (hcomment : ∀ q : Place, (q.relabel f).isComment = q.isComment)
    (p : Place) : (p.relabel f).members = p.members.map (relabel f) := by
  unfold members namedNodes
  rw [nodes_relabel, List.filter_map, List.filter_map]
  congr 2
  · funext q
    rw [Function.comp_apply, hcomment]
  · congr 1
    funext q
    rw [Function.comp_apply, label_relabel, h.named]

end KeepsShape

/-! ### Kinds -/

/-- The labels that are chosen keep what nodes are and which parts they play. -/
structure KeepsParts (f : Place → Label) : Prop where
  type : ∀ p, (f p).type = p.label.type
  field : ∀ p, (f p).field = p.label.field
  named : ∀ p, (f p).named = p.label.named
  isSealed : ∀ p, (f p).sealed = p.label.sealed

namespace KeepsParts

variable {f : Place → Label} (h : KeepsParts f)

include h

theorem keepsShape : KeepsShape f := ⟨h.field, h.named, h.isSealed⟩

theorem type_relabel (p : Place) : (p.relabel f).type = p.type := by
  rw [Place.type, label_relabel, h.type, Place.type]

theorem find?_type_relabel (p : Place) (type : String) :
    (p.relabel f).nodes.find? (·.type == type) =
      (p.nodes.find? (·.type == type)).map (relabel f) := by
  rw [nodes_relabel, List.find?_map]
  congr 2
  funext q
  rw [Function.comp_apply, h.type_relabel]

theorem parentType?_relabel (p : Place) : (p.relabel f).parentType? = p.parentType? := by
  rw [parentType?, parentType?, parent?_relabel]
  cases p.parent? with
  | none => rfl
  | some parent => exact congrArg some (h.type_relabel parent)

theorem keepsStanding : KeepsStanding (relabel f) where
  type := h.type_relabel
  parentType := h.parentType?_relabel
  fills := h.keepsShape.fills_relabel
  field := h.keepsShape.field?_relabel

theorem busyWalk_relabel (p : Place) : (p.relabel f).busyWalk = p.busyWalk.map (relabel f) := by
  rw [busyWalk, h.keepsShape.walk_relabel, List.filter_map, busyWalk]
  congr 2
  funext q
  rw [Function.comp_apply, h.keepsStanding.isIdle_eq]

theorem members_relabel (p : Place) : (p.relabel f).members = p.members.map (relabel f) := by
  apply h.keepsShape.members_relabel
  intro q
  rw [isComment, h.type_relabel, isComment]

end KeepsParts

/-! ### Outlines -/

/-- The labels that are chosen keep also what nodes say, if the source is another one. -/
structure KeepsText (f : Place → Label) (source source' : ByteArray) : Prop
    extends KeepsParts f where
  text : ∀ p, (f p).span.text source' = p.text source

namespace KeepsText

variable {f : Place → Label} {source source' : ByteArray} (h : KeepsText f source source')

include h

theorem text_relabel (p : Place) : (p.relabel f).text source' = p.text source := by
  rw [Place.text, label_relabel, h.text]

theorem correspondence : Correspondence (relabel f) source source' where
  toKeepsStanding := h.keepsStanding
  text := h.text_relabel
  bracket p := h.find?_type_relabel p "["
  members := h.members_relabel
  busyWalk := h.busyWalk_relabel

/-- A program keeps its outline, located by the same places. -/
theorem outline_relabel (p : Place) :
    (p.relabel f).outline source' = (p.outline source).map (Option.map (relabel f)) :=
  h.correspondence.outline_eq p

end KeepsText

end Place

end RubyOutline
