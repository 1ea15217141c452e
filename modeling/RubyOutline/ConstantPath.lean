import RubyOutline.Source

/-!
Paths of constants. The tree of `A::B::C` nests to the left, the innermost
qualifier deepest; a path that begins at the top level has an empty first
segment.
-/

namespace RubyOutline.Place

def isScopeResolution (p : Place) : Bool := p.type == "scope_resolution"

def lastSegment (p : Place) (source : ByteArray) : String :=
  match p.field? "name" with
  | none => ""
  | some name => name.text source

/-- The segments of a path from the outermost on. A qualifier that is no path
itself is a segment with its whole text. -/
def segments (p : Place) (source : ByteArray) : List String :=
  if p.isScopeResolution then
    match h : p.field? "scope" with
    | none => ["", p.lastSegment source]
    | some scope =>
      have := size_lt_of_field? h
      scope.segments source ++ [p.lastSegment source]
  else [p.text source]
termination_by p.size

theorem segments_of_not_isScopeResolution {p : Place} {source : ByteArray}
    (hs : ¬ p.isScopeResolution = true) : p.segments source = [p.text source] := by
  rw [segments, if_neg hs]

theorem segments_of_scope_eq_none {p : Place} {source : ByteArray}
    (hs : p.isScopeResolution = true) (h : p.field? "scope" = none) :
    p.segments source = ["", p.lastSegment source] := by
  rw [segments, if_pos hs]
  split
  · rfl
  · next scope hscope => simp [h] at hscope

theorem segments_of_scope_eq_some {p scope : Place} {source : ByteArray}
    (hs : p.isScopeResolution = true) (h : p.field? "scope" = some scope) :
    p.segments source = scope.segments source ++ [p.lastSegment source] := by
  rw [segments, if_pos hs]
  split
  · next hscope => simp [h] at hscope
  · next q hscope =>
    rw [h] at hscope
    rw [Option.some.inj hscope]

/-- A constant or a path of constants as it is written, `none` for any other
node. -/
def constantPath? (p : Place) (source : ByteArray) : Option String :=
  if p.type == "constant" || p.isScopeResolution then
    some ("::".intercalate (p.segments source))
  else none

end RubyOutline.Place
