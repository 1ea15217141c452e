import RubyOutline.Proofs.Relabel

/-!
Programs behind other text. When text is put in front of a source, the spans of its nodes
move by the length of that text and their rows by some number of lines. All that an outline
says of a node is relative to the node's own place in the source, so the report of the moved
program is the same report some lines further down.
-/

namespace RubyOutline

/-! ### What moves -/

/-- The span of the same bytes behind `n` others. -/
def Span.moveBy (n : Nat) (span : Span) : Span := ⟨span.start + n, span.stop + n⟩

/-- A row some lines further down. What is no row stays as it is. -/
def Coordinate.lower (k : Nat) : Coordinate → Coordinate
  | whole row => if 0 ≤ row then whole (row + k) else whole row
  | other => other

/-- A position whose row is some lines further down. -/
def lowerRow (k : Nat) : List Coordinate → List Coordinate
  | row :: rest => row.lower k :: rest
  | [] => []

/-- What is stated about a node that is `n` bytes and `k` lines further down. -/
def Label.moveBy (n k : Nat) (label : Label) : Label :=
  { label with span := label.span.moveBy n, start := label.start.map (lowerRow k) }

theorem Span.bytes_moveBy (span : Span) (before source : ByteArray) :
    (span.moveBy before.size).bytes (before ++ source) = span.bytes source := by
  have hsize : before.size = before.data.toList.length := Array.length_toList.symm
  have hdata : (before ++ source).data.toList = before.data.toList ++ source.data.toList := by
    rw [ByteArray.data_append, Array.toList_append]
  have hlength : span.stop + before.size - (span.start + before.size) =
      span.stop - span.start := by omega
  rw [bytes_eq, bytes_eq, moveBy, hdata, hlength, hsize, Nat.add_comm,
    List.drop_length_add_append]

theorem Span.text_moveBy (span : Span) (before source : ByteArray) :
    (span.moveBy before.size).text (before ++ source) = span.text source := by
  rw [text, bytes_moveBy, text]

theorem Label.line?_moveBy (n k : Nat) (label : Label) :
    (label.moveBy n k).line? = label.line?.map (· + k) := by
  unfold line? moveBy
  cases hs : label.start with
  | none => rfl
  | some position =>
    rcases position with _ | ⟨row | _, rest⟩
    · rfl
    · by_cases hrow : 0 ≤ row
      · have hlowered : 0 ≤ row + (k : Int) := by omega
        have hline : (row + (k : Int)).toNat + 1 = row.toNat + 1 + k := by omega
        simp [lowerRow, Coordinate.lower, hrow, hlowered, hline]
      · simp [lowerRow, Coordinate.lower, hrow]
    · rfl

namespace Place

/-- The same place in a program that stands `n` bytes and `k` lines further down. -/
def moveBy (n k : Nat) (p : Place) : Place := p.relabel fun q => q.label.moveBy n k

theorem keepsText_moveBy (before source : ByteArray) (k : Nat) :
    KeepsText (fun q => q.label.moveBy before.size k) source (before ++ source) where
  type _ := rfl
  field _ := rfl
  named _ := rfl
  isSealed _ := rfl
  text q := q.label.span.text_moveBy before source

theorem line?_map_moveBy (n k : Nat) (token : Token) :
    Token.line? (token.map (moveBy n k)) = token.line?.map (· + k) := by
  cases token with
  | none => rfl
  | some p =>
    simp only [Option.map_some, Token.line?, Option.bind_some, moveBy, label_relabel,
      Label.line?_moveBy]

/-- The report of a program behind some text is its own report with every line that is told
some lines further down. -/
theorem report_moveBy (before source : ByteArray) (k : Nat) (p : Place) :
    (p.moveBy before.size k).report (before ++ source) =
      (p.report source).map (Option.map (· + k)) := by
  have hlines : Token.line? ∘ Option.map (moveBy before.size k) =
      Option.map (· + k) ∘ Token.line? := funext (line?_map_moveBy before.size k)
  have hreport := (keepsText_moveBy before source k).correspondence.report_eq p
  rw [moveBy, hreport, report, Report.map_map]
  exact congrArg ((p.outline source).map ·) hlines

end Place

end RubyOutline
