import Mathlib.Order.Monotone.Basic
import RubyOutline.Proofs.Correspondence
import RubyOutline.Proofs.Keywords

/-!
Trees with more nodes. A parser hangs comments and punctuation between the nodes that carry
a program, as childless nodes that play no part. A filling says which of them to put in front
of every child of every place, and behind the last; the padded tree has them there and is
otherwise the same. Nothing that is made of a tree takes notice: the outline of the padded
tree is the same outline, located by the places that correspond, and the first stray keyword
is the one that corresponds.
-/

namespace RubyOutline

/-- What may be put between nodes: a comment, or a token other than an opening bracket. -/
structure Filler where
  label : Label
  field_eq_none : label.field = none
  comment_or_token : label.named = true ∧ label.type = "comment" ∨
    label.named = false ∧ label.type ≠ "["

def Filler.tree (f : Filler) : Tree := .node f.label []

/-- What is put in front of each child of a place. What has the number of the children for
its index is put behind the last. -/
abbrev Filling := Place → Nat → List Filler

mutual

/-- A child of a place with the fillers that go into it, `i` being its index. -/
def Tree.pad (fill : Filling) (parent : Place) (i : Nat) : Tree → Tree
  | .foreign => .foreign
  | .node label children =>
    .node label (Tree.padAll fill (.inside parent i label children) 0 children)

/-- Some children of a place with the fillers before, between and behind them, `i` being the
index of the first. -/
def Tree.padAll (fill : Filling) (parent : Place) (i : Nat) : List Tree → List Tree
  | [] => (fill parent i).map Filler.tree
  | t :: ts =>
    (fill parent i).map Filler.tree ++ t.pad fill parent i :: Tree.padAll fill parent (i + 1) ts

end

namespace Place

/-- The index at which what is put in front of a child begins. -/
def gapIndex (fill : Filling) (p : Place) : Nat → Nat
  | 0 => 0
  | i + 1 => gapIndex fill p i + (fill p i).length + 1

/-- The index that a child of a place has once the place is padded. -/
def paddedIndex (fill : Filling) (p : Place) (i : Nat) : Nat :=
  gapIndex fill p i + (fill p i).length

/-- The same place in the padded tree. -/
def pad (fill : Filling) : Place → Place
  | top label children => top label (Tree.padAll fill (top label children) 0 children)
  | inside parent i label children =>
    inside (parent.pad fill) (paddedIndex fill parent i) label
      (Tree.padAll fill (inside parent i label children) 0 children)

variable {fill : Filling}

@[simp] theorem label_pad (p : Place) : (p.pad fill).label = p.label := by
  cases p <;> rfl

@[simp] theorem type_pad (p : Place) : (p.pad fill).type = p.type := by
  rw [type, label_pad, type]

theorem children_pad (p : Place) : (p.pad fill).children = Tree.padAll fill p 0 p.children := by
  cases p <;> rfl

@[simp] theorem parent?_pad (p : Place) : (p.pad fill).parent? = p.parent?.map (pad fill) := by
  cases p <;> rfl

theorem index?_pad {p parent : Place} (h : p.parent? = some parent) :
    (p.pad fill).index? = p.index?.map (paddedIndex fill parent) := by
  cases p with
  | top => contradiction
  | inside parent' i l cs =>
    obtain rfl := Option.some.inj h
    rfl

/-- Padding moves children apart and keeps their order. -/
theorem paddedIndex_strictMono (fill : Filling) (p : Place) :
    StrictMono (paddedIndex fill p) := by
  apply strictMono_nat_of_lt_succ
  intro i
  simp only [paddedIndex, gapIndex]
  omega

/-! ### Children -/

/-- A filler in its place. -/
structure IsFiller (p : Place) : Prop where
  nodes : p.nodes = []
  field : p.label.field = none
  comment_or_token : p.label.named = true ∧ p.type = "comment" ∨
    p.label.named = false ∧ p.type ≠ "["

theorem nodesFrom_append (parent : Place) (i : Nat) (ts us : List Tree) :
    nodesFrom parent i (ts ++ us) =
      nodesFrom parent i ts ++ nodesFrom parent (i + ts.length) us := by
  induction ts generalizing i with
  | nil => rfl
  | cons t ts ih =>
    have hlength : i + (t :: ts).length = i + 1 + ts.length := by
      rw [List.length_cons]
      omega
    rw [hlength]
    cases t with
    | node l cs => exact congrArg (_ :: ·) (ih (i + 1))
    | foreign => exact ih (i + 1)

theorem isFiller_of_mem_nodesFrom {parent q : Place} {i : Nat} {fs : List Filler}
    (h : q ∈ nodesFrom parent i (fs.map Filler.tree)) : q.IsFiller := by
  induction fs generalizing i with
  | nil => contradiction
  | cons f fs ih =>
    rcases List.mem_cons.1 h with rfl | h
    · exact ⟨rfl, f.field_eq_none, f.comment_or_token⟩
    · exact ih h

theorem flatMap_fillers {α : Type} {f : Place → List α} (h : ∀ q, q.IsFiller → f q = [])
    (parent : Place) (i : Nat) (fs : List Filler) :
    (nodesFrom parent i (fs.map Filler.tree)).flatMap f = [] := by
  rw [List.flatMap_eq_nil_iff]
  intro q hq
  exact h q (isFiller_of_mem_nodesFrom hq)

theorem flatMap_nodesFrom_padAll {α : Type} {f : Place → List α}
    (h : ∀ q, q.IsFiller → f q = []) (p : Place) (i : Nat) (ts : List Tree) :
    (nodesFrom (p.pad fill) (gapIndex fill p i) (Tree.padAll fill p i ts)).flatMap f =
      (nodesFrom p i ts).flatMap fun q => f (q.pad fill) := by
  induction ts generalizing i with
  | nil => exact flatMap_fillers h _ _ _
  | cons t ts ih =>
    have hih := ih (i + 1)
    rw [Tree.padAll, nodesFrom_append, List.flatMap_append, flatMap_fillers h, List.nil_append,
      List.length_map]
    cases t with
    | node l cs =>
      rw [Tree.pad, nodesFrom, nodesFrom, List.flatMap_cons, List.flatMap_cons, ← hih]
      rfl
    | foreign =>
      rw [Tree.pad, nodesFrom, nodesFrom, ← hih]
      rfl

/-- What is gathered from the children of a place stays, if fillers contribute nothing. -/
theorem flatMap_nodes_pad {α : Type} {f : Place → List α} (h : ∀ q, q.IsFiller → f q = [])
    (p : Place) : (p.pad fill).nodes.flatMap f = p.nodes.flatMap fun q => f (q.pad fill) := by
  rw [nodes, children_pad]
  exact flatMap_nodesFrom_padAll h p 0 p.children

theorem filter_nodes_pad {test : Place → Bool} (h : ∀ q, q.IsFiller → test q = false)
    (p : Place) : (p.pad fill).nodes.filter test = (p.nodes.map (pad fill)).filter test := by
  have hfiller : ∀ q : Place, q.IsFiller → [q].filter test = [] := by
    intro q hq
    rw [List.filter_cons_of_neg (by simp [h q hq]), List.filter_nil]
  calc (p.pad fill).nodes.filter test
      = (p.pad fill).nodes.flatMap fun q => [q].filter test := by
        rw [← List.filter_flatMap, List.flatMap_singleton']
    _ = p.nodes.flatMap fun q => [q.pad fill].filter test := flatMap_nodes_pad hfiller p
    _ = (p.nodes.map (pad fill)).flatMap fun q => [q].filter test := by rw [List.flatMap_map]
    _ = (p.nodes.map (pad fill)).filter test := by
        rw [← List.filter_flatMap, List.flatMap_singleton']

theorem find?_nodes_pad {test : Place → Bool} (h : ∀ q, q.IsFiller → test q = false)
    (p : Place) : (p.pad fill).nodes.find? test = (p.nodes.map (pad fill)).find? test := by
  rw [← List.head?_filter, filter_nodes_pad h, List.head?_filter]

/-! ### Standing -/

theorem field?_pad (p : Place) (name : String) :
    (p.pad fill).field? name = (p.field? name).map (pad fill) := by
  have hfiller : ∀ q : Place, q.IsFiller → (q.label.field == some name) = false := by
    intro q hq
    rw [hq.field]
    rfl
  unfold field?
  rw [label_pad]
  split
  · rfl
  · rw [find?_nodes_pad hfiller, List.find?_map]
    congr 2
    funext q
    rw [Function.comp_apply, label_pad]

theorem fills_pad (p : Place) (name : String) : (p.pad fill).fills name = p.fills name := by
  unfold fills
  rw [parent?_pad]
  cases hparent : p.parent? with
  | none => rfl
  | some parent =>
    simp only [Option.map_some, field?_pad]
    cases hq : parent.field? name with
    | none => rfl
    | some q =>
      have hq' := parent?_of_mem_nodes (mem_nodes_of_field? hq)
      have hinj := Option.map_injective (paddedIndex_strictMono fill parent).injective
      -- Indices have changed, but both in the same way, so they agree as before.
      simp only [Option.map_some, index?_pad hq', index?_pad hparent]
      rw [Bool.eq_iff_iff, beq_iff_eq, beq_iff_eq, hinj.eq_iff]

theorem parentType?_pad (p : Place) : (p.pad fill).parentType? = p.parentType? := by
  rw [parentType?, parentType?, parent?_pad]
  cases p.parent? with
  | none => rfl
  | some parent => exact congrArg some (type_pad parent)

theorem keepsStanding_pad : KeepsStanding (pad fill) where
  type := type_pad
  parentType := parentType?_pad
  fills := fills_pad
  field := field?_pad

/-! ### What is walked -/

/-- A comment is walked for nothing, and a token is not walked. -/
theorem IsFiller.busyWalk_eq_nil {q : Place} (h : q.IsFiller) : q.busyWalk = [] := by
  rcases h.comment_or_token with ⟨hnamed, htype⟩ | ⟨hnamed, -⟩
  · have hidle : q.isIdle = true := by simp [isIdle, kind, htype, conditionalTypes]
    rw [busyWalk, walk_eq_cons hnamed, h.nodes]
    simp [hidle]
  · rw [busyWalk, walk_eq_nil (by simp [hnamed])]
    rfl

theorem busyWalk_eq_cons {p : Place} (h : p.label.named) :
    p.busyWalk = [p].filter (!·.isIdle) ++ p.nodes.flatMap busyWalk := by
  rw [busyWalk, walk_eq_cons h, ← List.singleton_append, List.filter_append, List.filter_flatMap]
  rfl

theorem busyWalk_pad (p : Place) : (p.pad fill).busyWalk = p.busyWalk.map (pad fill) := by
  induction p using nodesInduction with
  | step p ih =>
    by_cases hn : p.label.named = true
    · have hhead : [p.pad fill].filter (!·.isIdle) = ([p].filter (!·.isIdle)).map (pad fill) := by
        rw [← List.map_singleton, List.filter_map]
        congr 2
        funext q
        rw [Function.comp_apply, keepsStanding_pad.isIdle_eq]
      rw [busyWalk_eq_cons hn, busyWalk_eq_cons (by rw [label_pad]; exact hn),
        flatMap_nodes_pad fun q => IsFiller.busyWalk_eq_nil, hhead, List.map_append,
        List.map_flatMap]
      congr 1
      exact List.flatMap_congr ih
    · have hn' : ¬ (p.pad fill).label.named = true := by rwa [label_pad]
      rw [busyWalk, busyWalk, walk_eq_nil hn, walk_eq_nil hn']
      rfl

theorem members_eq_filter (p : Place) :
    p.members = p.nodes.filter fun q => q.label.named && !q.isComment := by
  rw [members, namedNodes, List.filter_filter]
  exact List.filter_congr fun q _ => Bool.and_comm _ _

theorem members_pad (p : Place) : (p.pad fill).members = p.members.map (pad fill) := by
  have hfiller : ∀ q : Place, q.IsFiller → (q.label.named && !q.isComment) = false := by
    intro q hq
    rcases hq.comment_or_token with ⟨-, htype⟩ | ⟨hnamed, -⟩
    · simp [isComment, htype]
    · simp [hnamed]
  rw [members_eq_filter, members_eq_filter, filter_nodes_pad hfiller, List.filter_map]
  congr 2
  funext q
  rw [Function.comp_apply, label_pad, isComment, type_pad, isComment]

theorem bracket_pad (p : Place) :
    (p.pad fill).nodes.find? (·.type == "[") =
      (p.nodes.find? (·.type == "[")).map (pad fill) := by
  have hfiller : ∀ q : Place, q.IsFiller → (q.type == "[") = false := by
    intro q hq
    rcases hq.comment_or_token with ⟨-, htype⟩ | ⟨-, htype⟩
    · simp [htype]
    · simp [htype]
  rw [find?_nodes_pad hfiller, List.find?_map]
  congr 2
  funext q
  rw [Function.comp_apply, type_pad]

theorem text_pad (p : Place) (source : ByteArray) : (p.pad fill).text source = p.text source := by
  rw [text, label_pad, text]

theorem correspondence_pad (source : ByteArray) : Correspondence (pad fill) source source where
  toKeepsStanding := keepsStanding_pad
  text p := text_pad p source
  bracket := bracket_pad
  members := members_pad
  busyWalk := busyWalk_pad

/-! ### Reports and stray keywords -/

theorem line?_map_pad (token : Token) : Token.line? (token.map (pad fill)) = token.line? := by
  cases token with
  | none => rfl
  | some p => simp only [Option.map_some, Token.line?, Option.bind_some, label_pad]

theorem isStrayKeyword_eq_false_of_isIdle {source : ByteArray} {p : Place}
    (h : p.isIdle = true) : p.isStrayKeyword source = false := by
  have hkind : p.kind = .other := by simpa [isIdle] using h
  have hexamined : p.isExamined = false := by
    rw [Bool.eq_false_iff, ne_eq, isExamined_iff, hkind]
    simp
  rw [isStrayKeyword_eq, hexamined, Bool.false_and]

theorem firstStrayKeyword_eq_find?_busyWalk (source : ByteArray) (p : Place) :
    p.firstStrayKeyword source = p.busyWalk.find? (isStrayKeyword source) := by
  rw [firstStrayKeyword_eq_find?, busyWalk, ← List.head?_filter, ← List.head?_filter,
    List.filter_filter]
  congr 1
  apply List.filter_congr
  intro q _
  cases hidle : q.isIdle with
  | false => simp
  | true => rw [isStrayKeyword_eq_false_of_isIdle hidle, Bool.false_and]

theorem Correspondence.isStrayKeyword_eq {g : Place → Place} {source source' : ByteArray}
    (h : Correspondence g source source') (p : Place) :
    (g p).isStrayKeyword source' = p.isStrayKeyword source := by
  have hexamined : (g p).isExamined = p.isExamined := by
    rw [Bool.eq_iff_iff, isExamined_iff, isExamined_iff, h.kind_eq]
  rw [Place.isStrayKeyword_eq, Place.isStrayKeyword_eq, hexamined, h.text]

/-- The first stray keyword of one tree corresponds to that of the other. -/
theorem Correspondence.firstStrayKeyword_eq {g : Place → Place} {source source' : ByteArray}
    (h : Correspondence g source source') (p : Place) :
    (g p).firstStrayKeyword source' = (p.firstStrayKeyword source).map g := by
  rw [firstStrayKeyword_eq_find?_busyWalk, firstStrayKeyword_eq_find?_busyWalk, h.busyWalk,
    List.find?_map]
  congr 2
  funext q
  exact h.isStrayKeyword_eq q

/-- A tree and the same tree with comments and tokens anywhere between its nodes have the
same report, and their first stray keywords correspond. -/
theorem report_pad (source : ByteArray) (fill : Filling) (p : Place) :
    (p.pad fill).report source = p.report source ∧
      (p.pad fill).firstStrayKeyword source = (p.firstStrayKeyword source).map (pad fill) := by
  refine ⟨?_, (correspondence_pad source).firstStrayKeyword_eq p⟩
  have hlines : Token.line? ∘ Option.map (pad fill) = Token.line? := funext line?_map_pad
  rw [(correspondence_pad source).report_eq, hlines, report]

/-- A method with a remark behind its name and a semicolon in its body, and the tree of it that
has neither. The second name in the body is a stray keyword. -/
def remarkedSource : String := "def a # x\n  b; else\nend"

def bareMethod : Place :=
  .top (plainLabel "program" 0 23 0 0 none)
    [.node (plainLabel "method" 0 23 0 0 none)
      [.node (plainLabel "identifier" 4 5 0 4 (some "name")) [],
       .node (plainLabel "body_statement" 12 19 1 2 (some "body"))
        [.node (plainLabel "identifier" 12 13 1 2 none) [],
         .node (plainLabel "identifier" 15 19 1 5 none) []]]]

def remark : Filler where
  label := plainLabel "comment" 6 9 0 6 none
  field_eq_none := rfl
  comment_or_token := .inl ⟨rfl, rfl⟩

def semicolon : Filler where
  label := { plainLabel ";" 13 14 1 3 none with named := false }
  field_eq_none := rfl
  comment_or_token := .inr ⟨rfl, by decide⟩

/-- Both fillers where they stand in the source. -/
def remarks : Filling := fun p i =>
  if p.type = "method" ∧ i = 1 then [remark]
  else if p.type = "body_statement" ∧ i = 1 then [semicolon]
  else []

theorem report_pad_remarks :
    (bareMethod.pad remarks).preorder.map Place.type = ["program", "method", "identifier", "comment",
        "body_statement", "identifier", ";", "identifier"] ∧
      (bareMethod.pad remarks).report remarkedSource.toUTF8 =
        .topLevel [⟨"a", [], some 1, [], [], [⟨"b", some 2⟩, ⟨"else", some 2⟩], []⟩] ∧
      (bareMethod.firstStrayKeyword remarkedSource.toUTF8).map address = some [1, 1, 0] ∧
      ((bareMethod.pad remarks).firstStrayKeyword remarkedSource.toUTF8).map address =
        some [2, 2, 0] := by
  obtain ⟨hreport, hstray⟩ := report_pad remarkedSource.toUTF8 remarks bareMethod
  rw [hreport, hstray, Option.map_map]
  exact ⟨by decide +kernel, by decide +kernel, by decide +kernel, by decide +kernel⟩

end Place

end RubyOutline
