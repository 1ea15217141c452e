import RubyOutline.Tree.Basic

/-!
Flat listings of trees. A listing names every node's parent by its row, parents
before children, and the first row is the top. Children stand in the order of
their rows.
-/

namespace RubyOutline

/-- One row of a listing. -/
structure Row where
  /-- The row of the parent; the top has none. -/
  parent : Option Nat
  /-- What is stated about the node; `none` where the child is no node. -/
  label : Option Label

namespace Listing

/-- Hangs the tree of a row, whose children have been collected, from its parent.
`collected` holds for every row the children found so far. -/
def hang (row : Row) (i : Nat) (collected : Array (List Tree)) : Array (List Tree) :=
  let tree := match row.label with
    | some label => Tree.node label (collected.getD i [])
    | none => Tree.foreign
  match row.parent with
  | some parent => collected.modify parent (tree :: ·)
  | none => collected

/-- The children of every row. The rows are taken from the last to the first, so
that each is complete when it is hung up. -/
def children (rows : List Row) : Array (List Tree) :=
  rows.zipIdx.foldr (fun (row, i) collected => hang row i collected)
    (Array.replicate rows.length [])

def top? (rows : List Row) : Option Place :=
  match rows with
  | ⟨_, some label⟩ :: _ => some (.top label ((children rows).getD 0 []))
  | _ => none

/-- Extends the addresses of earlier rows, and the number of children each has,
by one row. -/
def number (state : Array (List Nat) × Array Nat) (row : Row) : Array (List Nat) × Array Nat :=
  let (addresses, counts) := state
  match row.parent with
  | none => (addresses.push [], counts.push 0)
  | some parent =>
    let i := counts.getD parent 0
    (addresses.push (i :: addresses.getD parent []),
      (counts.modify parent (· + 1)).push 0)

def addresses (rows : List Row) : Array (List Nat) := (rows.foldl number (#[], #[])).1

end Listing

namespace Place

def descend (p : Place) : List Nat → Option Place
  | [] => some p
  | i :: is => do
    let q ← p.nodes.find? (·.index? == some i)
    q.descend is

def at? (top : Place) (address : List Nat) : Option Place := top.descend address.reverse

end Place

end RubyOutline
