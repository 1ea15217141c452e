import RubyOutline.Proofs.Gate
import RubyOutline.Proofs.Splitting

/-!
What is quoted of the node that a source is refused for. The text of the node is stripped, cut at
the first line feed and stripped again, which comes to its first line with something written on it,
without the blanks around that line: blank lines in front are taken off by the first stripping, and
whatever the first stripping takes off behind would have been taken off by the second. Nothing is
quoted just where the whole text is blank.
-/

namespace RubyOutline

namespace Text

abbrev lines (s : String) : List String := parts '\n' s

/-- A line, and what comes behind it in the text of all lines. -/
theorem exists_intercalate_cons (line : String) (rest : List String) :
    ∃ behind, ("\n".intercalate (line :: rest)).toList = line.toList ++ behind ∧
      (∀ c ∈ behind.head?, c = '\n') ∧
      behind.dropWhile isBlank = ("\n".intercalate rest).toList.dropWhile isBlank := by
  cases rest with
  | nil => exact ⟨[], by simp, by simp, rfl⟩
  | cons next rest =>
    refine ⟨'\n' :: ("\n".intercalate (next :: rest)).toList, by simp, by simp, ?_⟩
    exact List.dropWhile_cons_of_pos rfl

/-- Once the blanks in front of a text are passed, the first line that is not blank goes on to its
end. -/
theorem takeWhile_dropWhile_intercalate {ls : List String} (h : ∀ line ∈ ls, '\n' ∉ line.toList) :
    (("\n".intercalate ls).toList.dropWhile isBlank).takeWhile (· != '\n') =
      ((ls.find? isWritten).getD "").toList.dropWhile isBlank := by
  induction ls with
  | nil => rfl
  | cons line rest ih =>
    obtain ⟨behind, hsplit, hbehind, hskip⟩ := exists_intercalate_cons line rest
    rw [hsplit, List.find?_cons]
    cases hwritten : isWritten line with
    | false =>
      rw [List.dropWhile_append_of_pos (isWritten_eq_false_iff.1 hwritten), hskip]
      exact ih fun l hl => h l (List.mem_cons_of_mem _ hl)
    | true =>
      have hwords : ¬ (line.toList.dropWhile isBlank).isEmpty = true := by
        simpa [isWritten] using hwritten
      have hline : ∀ c ∈ line.toList.dropWhile isBlank, (c != '\n') = true := fun c hc => by
        have hmem := (List.dropWhile_suffix isBlank).subset hc
        simpa using ne_of_mem_of_not_mem hmem (h line List.mem_cons_self)
      rw [List.dropWhile_append, if_neg hwords,
        takeWhile_append_of_head? hline fun c hc => by simpa using hbehind c hc]
      rfl

/-- Stripping, cutting and stripping again comes to the first line that is not blank. -/
theorem strip_firstLine_strip (s : String) :
    strip (firstLine (strip s)) = strip (((lines s).find? isWritten).getD "") := by
  have hs : "\n".intercalate (lines s) = s := intercalate_parts '\n' s
  have hline : (s.toList.dropWhile isBlank).takeWhile (· != '\n') =
      (((lines s).find? isWritten).getD "").toList.dropWhile isBlank := by
    rw [← takeWhile_dropWhile_intercalate fun line hline => notMem_of_mem_parts hline, hs]
  simp only [strip, firstLine, String.toList_ofList]
  rw [trimBy_takeWhile_trimBy, hline, trimBy_dropWhile]

/-- No line has anything written on it just where the text is blank throughout. -/
theorem find?_isWritten_eq_none_iff {s : String} :
    (lines s).find? isWritten = none ↔ ∀ c ∈ s.toList, isBlank c = true := by
  simp only [List.find?_eq_none, Bool.not_eq_true, isWritten_eq_false_iff, forall_mem_parts_iff]
  refine forall₂_congr fun c _ => or_iff_right_of_imp ?_
  rintro rfl
  rfl

end Text

namespace SyntaxFault

theorem message_unexpected (quote : String) (line column : Int) :
    (unexpected quote line column).message =
      s!"syntax error, unexpected '{quote}' at line {line}, column {column}" := by
  show "syntax error, unexpected '" ++ quote ++ "' " ++
    ("at line " ++ toString line ++ ", column " ++ toString column) = _
  have hjoint : "' at line " = "' " ++ "at line " := rfl
  simp only [hjoint, String.append_assoc]
  rfl

theorem message_unexpectedBlank (line column : Int) :
    (unexpectedBlank line column).message =
      s!"syntax error at line {line}, column {column}" := by
  show "syntax error " ++ ("at line " ++ toString line ++ ", column " ++ toString column) = _
  have hjoint : "syntax error at line " = "syntax error " ++ "at line " := rfl
  simp only [hjoint, String.append_assoc]
  rfl

theorem message_unexpected_ne (quote : String) (line column : Int) :
    (unexpected quote line column).message ≠ (unexpectedBlank line column).message := by
  intro h
  have hwords : "syntax error, unexpected '" ++ (quote ++ "' " ++ placeText line column) =
      "syntax error " ++ placeText line column := by
    rw [← String.append_assoc, ← String.append_assoc]
    exact h
  -- Behind the words that both begin with there is a comma, or a space.
  have hnext := congrArg (fun message => message.toList[12]?) hwords
  simp at hnext

end SyntaxFault

namespace Place

open Text

variable {source : ByteArray} {p : Place} {row column : Int} {rest : List Coordinate}

theorem snippet_eq (source : ByteArray) (p : Place) :
    p.snippet source = strip (((lines (p.text source)).find? isWritten).getD "") :=
  strip_firstLine_strip (p.text source)

theorem newline_notMem_snippet (source : ByteArray) (p : Place) :
    '\n' ∉ (p.snippet source).toList :=
  fun h => newline_notMem_firstLine _ (mem_of_mem_strip h)

theorem isTrimmed_snippet (source : ByteArray) (p : Place) :
    IsTrimmed isBlank (p.snippet source).toList := by
  rw [snippet, strip, String.toList_ofList]
  exact isTrimmed_trimBy isBlank _

theorem snippet_of_keyword (h : p.text source ∈ clauseKeywords) :
    p.snippet source = p.text source := by
  have hwords : ∀ word ∈ clauseKeywords, strip (firstLine (strip word)) = word := by decide
  exact hwords _ h

theorem fault_of_located (source : ByteArray)
    (hstart : p.label.start = some (.whole row :: .whole column :: rest))
    (hmissing : p.label.missing = false) :
    p.fault source = if p.snippet source = "" then .unexpectedBlank (row + 1) (column + 1)
      else .unexpected (p.snippet source) (row + 1) (column + 1) := by
  simp only [fault, Label.position?_eq_some hstart, hmissing, Bool.false_eq_true, if_false,
    String.isEmpty_iff]

theorem fault_eq (source : ByteArray)
    (hstart : p.label.start = some (.whole row :: .whole column :: rest))
    (hmissing : p.label.missing = false) :
    p.fault source = match (lines (p.text source)).find? isWritten with
      | none => .unexpectedBlank (row + 1) (column + 1)
      | some line => .unexpected (strip line) (row + 1) (column + 1) := by
  rw [fault_of_located source hstart hmissing, snippet_eq]
  cases hline : (lines (p.text source)).find? isWritten with
  | none => exact if_pos (strip_eq_empty_iff.2 (by simp))
  | some line => exact if_neg (isWritten_eq_true_iff.1 (List.find?_some hline))

/-- A node that is there and located is reported with the first line of its text that is not
blank, without the blanks around the line, and with nothing quoted just where the whole text is
blank. So a quote is one line that has no blanks around it, and of a stray keyword it is the
keyword. -/
theorem fault_quotes_line (source : ByteArray)
    (hstart : p.label.start = some (.whole row :: .whole column :: rest))
    (hmissing : p.label.missing = false) :
    (p.fault source = match (lines (p.text source)).find? isWritten with
      | none => .unexpectedBlank (row + 1) (column + 1)
      | some line => .unexpected (strip line) (row + 1) (column + 1)) ∧
      ((p.fault source).message = s!"syntax error at line {row + 1}, column {column + 1}" ↔
        ∀ c ∈ (p.text source).toList, isBlank c = true) ∧
      (∀ quote, p.fault source = .unexpected quote (row + 1) (column + 1) →
        (p.fault source).message =
            s!"syntax error, unexpected '{quote}' at line {row + 1}, column {column + 1}" ∧
          '\n' ∉ quote.toList ∧ quote ≠ "" ∧ IsTrimmed isBlank quote.toList) ∧
      ∀ top : Place, top.firstStrayKeyword source = some p →
        p.text source ∈ clauseKeywords ∧
          p.fault source = .unexpected (p.text source) (row + 1) (column + 1) := by
  have hline := fault_eq source hstart hmissing
  have hsnippet := fault_of_located source hstart hmissing
  refine ⟨hline, ?_, ?_, ?_⟩
  · rw [← find?_isWritten_eq_none_iff, hline, ← SyntaxFault.message_unexpectedBlank]
    cases (lines (p.text source)).find? isWritten with
    | none => simp
    | some line => simpa using SyntaxFault.message_unexpected_ne _ _ _
  · intro quote hquote
    rw [hquote] at hsnippet ⊢
    split at hsnippet
    · cases hsnippet
    · next hne =>
      obtain ⟨rfl, -, -⟩ := SyntaxFault.unexpected.inj hsnippet
      exact ⟨SyntaxFault.message_unexpected _ _ _, newline_notMem_snippet source p, hne,
        isTrimmed_snippet source p⟩
  · intro top htop
    rw [firstStrayKeyword_eq_find?] at htop
    have hstray := isStrayKeyword_iff.1 (List.find?_some htop)
    have hword : p.text source ∈ clauseKeywords := hstray.2.1
    have hne : p.text source ≠ "" := fun hempty => by
      rw [hempty] at hword
      revert hword
      decide
    refine ⟨hword, ?_⟩
    rw [hsnippet, snippet_of_keyword hword, if_neg hne]

/-- A text that begins with two blank lines. The third has a line separator within it, which does
not end a line here. -/
def blurredSource : String := "\n \u3000\n\t)\u2028) \n)"

def blurredError : Place :=
  .top ⟨"ERROR", ⟨0, 15⟩, some [.whole 4, .whole 1], none, true, false, true, false⟩ []

theorem fault_quotes_line_blurred :
    blurredError.label.start = some [.whole 4, .whole 1] ∧ blurredError.label.missing = false ∧
      (blurredError.fault blurredSource.toUTF8).message =
        "syntax error, unexpected ')\u2028)' at line 5, column 2" := by
  have hlines : (lines (blurredError.text blurredSource.toUTF8)).find? isWritten =
      some "\t)\u2028) " := by decide +kernel
  have hstrip : strip "\t)\u2028) " = ")\u2028)" := by decide
  obtain ⟨hfault, -, hquote, -⟩ :=
    fault_quotes_line (p := blurredError) blurredSource.toUTF8 rfl rfl
  rw [hlines] at hfault
  refine ⟨rfl, rfl, (hquote ")\u2028)" ?_).1⟩
  rw [hfault]
  exact congrArg (SyntaxFault.unexpected · 5 2) hstrip

end Place

end RubyOutline
