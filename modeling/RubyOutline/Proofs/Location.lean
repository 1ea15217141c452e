import RubyOutline.Proofs.Origin
import RubyOutline.Proofs.Relabel

/-!
What positions are used for. A report takes the lines of its records from the positions of
their tokens and looks at positions for nothing else. So if some nodes state positions of
no use, the records that these nodes locate have no line, and all the rest of the report
stays.
-/

namespace RubyOutline

/-- A statement that tells no line: there is no position, or nothing in it, or its row is
negative or no whole number. -/
inductive Unusable : Option (List Coordinate) → Prop
  | absent : Unusable none
  | empty : Unusable (some [])
  | negative {row : Int} (h : row < 0) (rest : List Coordinate) :
    Unusable (some (.whole row :: rest))
  | noRow (rest : List Coordinate) : Unusable (some (.other :: rest))

theorem Unusable.line?_eq_none {label : Label} (h : Unusable label.start) :
    label.line? = none := by
  unfold Label.line?
  cases hs : label.start with
  | none => rfl
  | some position =>
    rw [hs] at h
    cases h with
    | empty => rfl
    | @negative row hrow rest => simp [Int.not_le.2 hrow]
    | noRow rest => rfl

/-- A line that is told is that of a row, counted from one. -/
theorem Label.line?_eq_some {label : Label} {line : Nat} (h : label.line? = some line) :
    ∃ row rest, label.start = some (.whole row :: rest) ∧ 0 ≤ row ∧ (line : Int) = row + 1 := by
  unfold Label.line? at h
  split at h
  · next row rest hs =>
    split at h
    · next hrow =>
      have hline := Option.some.inj h
      exact ⟨row, rest, hs, hrow, by omega⟩
    · contradiction
  · contradiction

/-- The line of a token that is not one of some places. -/
def Token.lineOutside (S : Set Place) [DecidablePred (· ∈ S)] (token : Token) : Option Nat :=
  if token.any (· ∈ S) then none else token.line?

namespace Place

section Displacement

variable (S : Set Place) [DecidablePred (· ∈ S)] (start : Place → Option (List Coordinate))

/-- A label, with another position for the places of a set. -/
def displacedLabel (p : Place) : Label :=
  if p ∈ S then { p.label with start := start p } else p.label

/-- The same place where the places of a set state other positions. -/
def displace (p : Place) : Place := p.relabel (displacedLabel S start)

variable {S start}

theorem keepsText_displacedLabel (source : ByteArray) :
    KeepsText (displacedLabel S start) source source := by
  constructor
  · constructor <;> intro p <;> unfold displacedLabel <;> split <;> rfl
  · intro p
    unfold displacedLabel
    split <;> rfl

theorem line?_displacedLabel (h : ∀ p ∈ S, Unusable (start p)) (p : Place) :
    (displacedLabel S start p).line? = if p ∈ S then none else p.label.line? := by
  unfold displacedLabel
  split
  · next hp => exact Unusable.line?_eq_none (h p hp)
  · rfl

theorem line?_map_displace (h : ∀ p ∈ S, Unusable (start p)) (token : Token) :
    Token.line? (token.map (relabel (displacedLabel S start))) = token.lineOutside S := by
  cases token with
  | none => rfl
  | some p =>
    simp only [Option.map_some, Token.line?, Option.bind_some, label_relabel,
      line?_displacedLabel h, Token.lineOutside, Option.any_some, decide_eq_true_eq]

end Displacement

theorem report_displace_eq_map {S : Set Place} [DecidablePred (· ∈ S)]
    {start : Place → Option (List Coordinate)} (h : ∀ q ∈ S, Unusable (start q))
    (source : ByteArray) (p : Place) :
    (p.displace S start).report source = (p.outline source).map (Token.lineOutside S) := by
  rw [report, displace, (keepsText_displacedLabel source).outline_relabel, Report.map_map]
  congr 1
  funext token
  exact line?_map_displace h token

theorem lineOutside_eq_none_iff {S : Set Place} [DecidablePred (· ∈ S)] {token : Token} :
    token.lineOutside S = none ↔ (∃ q ∈ S, token = some q) ∨ token.line? = none := by
  cases token with
  | none => simp [Token.lineOutside]
  | some p => by_cases hp : p ∈ S <;> simp [Token.lineOutside, hp]

/-- A report has the lines of its tokens. Where the places of a set state unusable
positions, it is the same report without the lines of the tokens in the set. The tokens
are the nodes that the records stand for, and a line that is told is a row counted from
one. -/
theorem report_displace (source : ByteArray) (S : Set Place) [DecidablePred (· ∈ S)]
    (start : Place → Option (List Coordinate)) (h : ∀ q ∈ S, Unusable (start q)) (p : Place) :
    p.report source = (p.outline source).map Token.line? ∧
      (p.displace S start).report source = (p.outline source).map (Token.lineOutside S) ∧
      ReportLocated source p (p.outline source) ∧
      (∀ token : Token, token.lineOutside S = none ↔
        (∃ q ∈ S, token = some q) ∨ token.line? = none) ∧
      (∀ (token : Token) line, token.lineOutside S = some line → token.line? = some line) ∧
      ∀ (token : Token) (line : Nat), token.line? = some line →
        ∃ q row rest, token = some q ∧ q.label.start = some (.whole row :: rest) ∧ 0 ≤ row ∧
          (line : Int) = row + 1 ∧ 1 ≤ line := by
  refine ⟨rfl, report_displace_eq_map h source p, reportLocated p,
    fun token => lineOutside_eq_none_iff, fun token line hline => ?_, fun token line hline => ?_⟩
  · unfold Token.lineOutside at hline
    split at hline
    · contradiction
    · exact hline
  · obtain ⟨q, rfl, hq⟩ := Option.bind_eq_some_iff.1 hline
    obtain ⟨row, rest, hstart, hrow, hvalue⟩ := Label.line?_eq_some hq
    exact ⟨q, row, rest, rfl, hstart, hrow, hvalue, by omega⟩

/-- Whatever begins at byte 8, the variable `x` among it, states a row before the first. -/
theorem report_displace_shadowing :
    (∀ q ∈ {q : Place | q.label.span.start = 8}, Unusable (some [.whole (-1)])) ∧
      (shadowingMethod.displace {q | q.label.span.start = 8}
          fun _ => some [.whole (-1)]).report shadowingSource =
        .topLevel
          [⟨"a", [], some 1, [], [⟨"x", none⟩], [], []⟩,
           ⟨"b", [], some 3, [], [], [⟨"x", some 4⟩], []⟩] := by
  have hunusable : ∀ q ∈ {q : Place | q.label.span.start = 8},
      Unusable (some [.whole (-1)]) := fun _ _ => .negative (by decide) []
  refine ⟨hunusable, ?_⟩
  rw [(report_displace shadowingSource _ (fun _ => some [.whole (-1)]) hunusable
    shadowingMethod).2.1]
  decide +kernel

end Place

end RubyOutline
