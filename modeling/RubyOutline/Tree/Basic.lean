/-!
Syntax trees as a parser hands them over, and the places in them. A node is
known by its place and not by its contents, since equal subtrees may stand side
by side; a place therefore remembers the way down to it. Nothing about a tree
is promised: flags, spans and positions are what the parser states, however
little they fit together.
-/

namespace RubyOutline

/-- One entry of a stated position. -/
inductive Coordinate where
  | whole (value : Int)
  /-- Something that is no whole number. -/
  | other
  deriving DecidableEq, Repr

/-- The bytes of the source that a node stands for. -/
structure Span where
  start : Nat
  stop : Nat
  deriving DecidableEq, Repr

/-- What the parser states about one node, its children apart. -/
structure Label where
  /-- The grammar's name for what the node is. -/
  type : String
  span : Span
  /-- Row and column of the first byte, counted from zero, if they are stated. -/
  start : Option (List Coordinate)
  /-- The part that the node plays in its parent, if it has a name. -/
  field : Option String
  /-- Keywords and punctuation are not named. -/
  named : Bool
  /-- The parser put the node in where the text lacks it. -/
  missing : Bool
  /-- The parser reports a syntax error at or below the node. -/
  damaged : Bool
  /-- The node does not tell its children by their fields. -/
  sealed : Bool
  deriving DecidableEq, Repr

/-- The line a node begins on, counted from one, where a row is stated. -/
def Label.line? (label : Label) : Option Nat :=
  match label.start with
  | some (.whole row :: _) => if 0 ≤ row then some (row.toNat + 1) else none
  | _ => none

/-- Line and column counted from one, where both are stated. -/
def Label.position? (label : Label) : Option (Int × Int) :=
  match label.start with
  | some (.whole row :: .whole column :: _) => some (row + 1, column + 1)
  | _ => none

inductive Tree where
  | node (label : Label) (children : List Tree)
  /-- A child that is no syntax node. Such children are there for walks, which pass over them.
  What looks through children without walking is only meant for trees that have none. -/
  | foreign

/-- A node in its surroundings: at the top, or at an index among the children of
another place. -/
inductive Place where
  | top (label : Label) (children : List Tree)
  | inside (parent : Place) (index : Nat) (label : Label) (children : List Tree)

namespace Place

def label : Place → Label
  | top label _ => label
  | inside _ _ label _ => label

def children : Place → List Tree
  | top _ children => children
  | inside _ _ _ children => children

def parent? : Place → Option Place
  | top _ _ => none
  | inside parent _ _ _ => some parent

def index? : Place → Option Nat
  | top _ _ => none
  | inside _ index _ _ => some index

def type (p : Place) : String := p.label.type

/-- The indices that lead from the node up to the top. -/
def address : Place → List Nat
  | top _ _ => []
  | inside parent index _ _ => index :: parent.address

/-- The places above a node, the nearest first. -/
def ancestors : Place → List Place
  | top _ _ => []
  | inside parent _ _ _ => parent :: parent.ancestors

/-- The nodes among some children of a place, the first child having index `i`. -/
def nodesFrom (parent : Place) (i : Nat) : List Tree → List Place
  | [] => []
  | .node label children :: rest =>
    inside parent i label children :: nodesFrom parent (i + 1) rest
  | .foreign :: rest => nodesFrom parent (i + 1) rest

def nodes (p : Place) : List Place := nodesFrom p 0 p.children

def namedNodes (p : Place) : List Place := p.nodes.filter (·.label.named)

/-- The first child that plays a part, unless the node is sealed. -/
def field? (p : Place) (name : String) : Option Place :=
  if p.label.sealed then none else p.nodes.find? (·.label.field == some name)

/-- Whether a node is the one its parent knows by a field. -/
def fills (p : Place) (name : String) : Bool :=
  match p.parent? with
  | none => false
  | some parent => match parent.field? name with
    | none => false
    | some q => q.index? == p.index?

/-- Whether the parent of a node is of one of some types. -/
def parentIsA (p : Place) (types : List String) : Bool :=
  p.parent?.any fun parent => types.contains parent.type

@[simp] theorem label_top (l : Label) (cs : List Tree) : (top l cs).label = l := rfl

@[simp] theorem label_inside (p : Place) (i : Nat) (l : Label) (cs : List Tree) :
    (inside p i l cs).label = l := rfl

@[simp] theorem children_top (l : Label) (cs : List Tree) : (top l cs).children = cs := rfl

@[simp] theorem children_inside (p : Place) (i : Nat) (l : Label) (cs : List Tree) :
    (inside p i l cs).children = cs := rfl

@[simp] theorem parent?_inside (p : Place) (i : Nat) (l : Label) (cs : List Tree) :
    (inside p i l cs).parent? = some p := rfl

theorem mem_nodes_of_field? {p q : Place} {name : String} (h : p.field? name = some q) :
    q ∈ p.nodes := by
  unfold field? at h
  split at h
  · simp at h
  · exact List.mem_of_find?_eq_some h

end Place

/-! ### Sizes -/

mutual

def Tree.size : Tree → Nat
  | .node _ children => 1 + Tree.sizeAll children
  | .foreign => 0

def Tree.sizeAll : List Tree → Nat
  | [] => 0
  | t :: ts => t.size + Tree.sizeAll ts

end

namespace Place

def size (p : Place) : Nat := 1 + Tree.sizeAll p.children

def sizeAll : List Place → Nat
  | [] => 0
  | p :: ps => p.size + sizeAll ps

theorem sizeAll_nodesFrom (parent : Place) (i : Nat) (ts : List Tree) :
    sizeAll (nodesFrom parent i ts) = Tree.sizeAll ts := by
  induction ts generalizing i with
  | nil => rfl
  | cons t ts ih =>
    cases t with
    | node l cs => simp [nodesFrom, sizeAll, Tree.sizeAll, Tree.size, size, ← ih (i + 1)]
    | foreign => simp [nodesFrom, Tree.sizeAll, Tree.size, ih]

theorem sizeAll_nodes (p : Place) : sizeAll p.nodes + 1 = p.size := by
  rw [nodes, sizeAll_nodesFrom, size]
  omega

theorem sizeAll_cons (p : Place) (ps : List Place) : sizeAll (p :: ps) = p.size + sizeAll ps := rfl

theorem sizeAll_append (ps qs : List Place) : sizeAll (ps ++ qs) = sizeAll ps + sizeAll qs := by
  induction ps with
  | nil => simp [sizeAll]
  | cons p ps ih =>
    rw [List.cons_append, sizeAll_cons, sizeAll_cons, ih]
    omega

theorem size_pos (p : Place) : 0 < p.size := by
  simp only [size]
  omega

theorem size_le_sizeAll {p : Place} {ps : List Place} (h : p ∈ ps) : p.size ≤ sizeAll ps := by
  induction ps with
  | nil => simp at h
  | cons q ps ih =>
    rw [sizeAll_cons]
    rcases List.mem_cons.1 h with rfl | h
    · omega
    · have := ih h
      omega

theorem size_lt_of_field? {p q : Place} {name : String} (h : p.field? name = some q) :
    q.size < p.size := by
  have := size_le_sizeAll (mem_nodes_of_field? h)
  have := sizeAll_nodes p
  omega

end Place

end RubyOutline
