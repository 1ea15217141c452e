import Mathlib.Data.List.DropRight
import RubyOutline.Text.Blank

/-!
Taking characters off the ends of a text, and the first line of a text. What is taken off
consists of characters to skip, and what remains has none at either end, so that taking off once
more changes nothing.
-/

namespace RubyOutline.Text

variable {skip : Char → Bool} {cs : List Char}

/-- There is nothing to skip at either end. -/
structure IsTrimmed (skip : Char → Bool) (cs : List Char) : Prop where
  head : ∀ c ∈ cs.head?, skip c = false
  last : ∀ c ∈ cs.getLast?, skip c = false

theorem trimBy_eq_rdropWhile (skip : Char → Bool) (cs : List Char) :
    trimBy skip cs = (cs.dropWhile skip).rdropWhile skip := rfl

/-- What is taken off at either end. -/
theorem exists_append_trimBy (skip : Char → Bool) (cs : List Char) :
    ∃ before after, before ++ trimBy skip cs ++ after = cs ∧
      (∀ c ∈ before, skip c = true) ∧ ∀ c ∈ after, skip c = true := by
  refine ⟨cs.takeWhile skip, (cs.dropWhile skip).rtakeWhile skip, ?_,
    fun c hc => List.mem_takeWhile_imp hc, fun c hc => List.mem_rtakeWhile_imp hc⟩
  rw [trimBy_eq_rdropWhile, List.append_assoc, List.rdropWhile_append_rtakeWhile,
    List.takeWhile_append_dropWhile]

theorem mem_of_mem_trimBy {c : Char} (h : c ∈ trimBy skip cs) : c ∈ cs := by
  obtain ⟨before, after, hcs, -, -⟩ := exists_append_trimBy skip cs
  rw [← hcs]
  exact List.mem_append_left _ (List.mem_append_right _ h)

theorem isTrimmed_trimBy (skip : Char → Bool) (cs : List Char) :
    IsTrimmed skip (trimBy skip cs) := by
  rw [trimBy_eq_rdropWhile]
  constructor
  · intro c hc
    obtain ⟨rest, hrest⟩ := List.rdropWhile_prefix skip (cs.dropWhile skip)
    have hhead := List.head?_dropWhile_not skip cs
    rw [← hrest, List.head?_append, hc] at hhead
    exact hhead
  · intro c hc
    obtain ⟨hne, rfl⟩ := List.mem_getLast?_eq_getLast hc
    simpa using List.rdropWhile_last_not skip _ hne

theorem IsTrimmed.trimBy_eq (h : IsTrimmed skip cs) : trimBy skip cs = cs := by
  have hfront : cs.dropWhile skip = cs := by
    cases cs with
    | nil => rfl
    | cons c cs => exact List.dropWhile_cons_of_neg (by simp [h.head c rfl])
  rw [trimBy_eq_rdropWhile, hfront, List.rdropWhile_eq_self_iff]
  exact fun hne => by simp [h.last _ (List.getLast?_eq_getLast_of_ne_nil hne)]

theorem trimBy_trimBy (skip : Char → Bool) (cs : List Char) :
    trimBy skip (trimBy skip cs) = trimBy skip cs :=
  (isTrimmed_trimBy skip cs).trimBy_eq

theorem trimBy_eq_nil_iff : trimBy skip cs = [] ↔ ∀ c ∈ cs, skip c = true := by
  obtain ⟨before, after, hcs, hbefore, hafter⟩ := exists_append_trimBy skip cs
  constructor
  · intro h c hc
    rw [← hcs, h, List.append_nil, List.mem_append] at hc
    exact hc.elim (hbefore c) (hafter c)
  · intro h
    by_contra hne
    have hhead := (isTrimmed_trimBy skip cs).head _ (List.head?_eq_some_head hne)
    have hskip := h _ (mem_of_mem_trimBy (List.head_mem hne))
    rw [hhead] at hskip
    cases hskip

/-! ### What stands around a text -/

variable {before after : List Char}

theorem trimBy_append_left (h : ∀ c ∈ before, skip c = true) (cs : List Char) :
    trimBy skip (before ++ cs) = trimBy skip cs := by
  rw [trimBy_eq_rdropWhile, List.dropWhile_append_of_pos h, ← trimBy_eq_rdropWhile]

theorem trimBy_dropWhile (skip : Char → Bool) (cs : List Char) :
    trimBy skip (cs.dropWhile skip) = trimBy skip cs := by
  rw [trimBy_eq_rdropWhile, List.dropWhile_idempotent, ← trimBy_eq_rdropWhile]

theorem rdropWhile_append_right (h : ∀ c ∈ after, skip c = true) (cs : List Char) :
    (cs ++ after).rdropWhile skip = cs.rdropWhile skip := by
  have hreverse : ∀ c ∈ after.reverse, skip c = true := fun c hc => h c (List.mem_reverse.1 hc)
  rw [List.rdropWhile, List.reverse_append, List.dropWhile_append_of_pos hreverse,
    List.rdropWhile]

theorem trimBy_append_right (h : ∀ c ∈ after, skip c = true) (cs : List Char) :
    trimBy skip (cs ++ after) = trimBy skip cs := by
  rw [trimBy_eq_rdropWhile, trimBy_eq_rdropWhile, List.dropWhile_append]
  split
  · next hempty =>
    -- Nothing remains of the text, and nothing of what stands behind it.
    rw [List.isEmpty_iff.1 hempty, List.dropWhile_eq_nil_iff.2 h]
  · exact rdropWhile_append_right h _

/-- A trimmed text is found again between what is put around it. -/
theorem IsTrimmed.trimBy_append_append (h : IsTrimmed skip cs)
    (hbefore : ∀ c ∈ before, skip c = true) (hafter : ∀ c ∈ after, skip c = true) :
    trimBy skip (before ++ cs ++ after) = cs := by
  rw [trimBy_append_right hafter, trimBy_append_left hbefore, h.trimBy_eq]

/-- What is taken from the front of a trimmed text and then trimmed might as well be taken from a
text that is trimmed in front only. -/
theorem trimBy_takeWhile_trimBy (keep : Char → Bool) (cs : List Char) :
    trimBy skip ((trimBy skip cs).takeWhile keep) =
      trimBy skip ((cs.dropWhile skip).takeWhile keep) := by
  have hsplit : trimBy skip cs ++ (cs.dropWhile skip).rtakeWhile skip = cs.dropWhile skip := by
    rw [trimBy_eq_rdropWhile, List.rdropWhile_append_rtakeWhile]
  have hafter : ∀ c ∈ ((cs.dropWhile skip).rtakeWhile skip).takeWhile keep, skip c = true :=
    fun c hc => List.mem_rtakeWhile_imp ((List.takeWhile_sublist keep).subset hc)
  conv_rhs => rw [← hsplit, List.takeWhile_append]
  split
  · next hall =>
    rw [(List.takeWhile_prefix keep).eq_of_length hall, trimBy_append_right hafter]
  · rfl

/-! ### Blank ends -/

variable {s : String}

theorem strip_strip (s : String) : strip (strip s) = strip s := by
  simp only [strip, String.toList_ofList, trimBy_trimBy]

theorem strip_eq_empty_iff : strip s = "" ↔ ∀ c ∈ s.toList, isBlank c = true := by
  rw [strip, String.ofList_eq_empty_iff, trimBy_eq_nil_iff]

theorem mem_of_mem_strip {c : Char} (h : c ∈ (strip s).toList) : c ∈ s.toList := by
  rw [strip, String.toList_ofList] at h
  exact mem_of_mem_trimBy h

/-- There is a character that is not blank. -/
def isWritten (s : String) : Bool := s.toList.any (!isBlank ·)

theorem isWritten_eq_false_iff :
    isWritten s = false ↔ ∀ c ∈ s.toList, isBlank c = true := by
  simp [isWritten]

theorem isWritten_eq_true_iff : isWritten s = true ↔ strip s ≠ "" := by
  rw [Ne, strip_eq_empty_iff, ← isWritten_eq_false_iff, Bool.not_eq_false]

/-! ### First lines -/

theorem newline_notMem_firstLine (s : String) : '\n' ∉ (firstLine s).toList := by
  intro h
  rw [firstLine, String.toList_ofList] at h
  simpa using List.mem_takeWhile_imp h

/-- A beginning whose characters are all taken is all that is taken, if the next one is not. -/
theorem takeWhile_append_of_head? {keep : Char → Bool} (h : ∀ c ∈ cs, keep c = true)
    (hafter : ∀ c ∈ after.head?, keep c = false) : (cs ++ after).takeWhile keep = cs := by
  rw [List.takeWhile_append_of_pos h]
  cases after with
  | nil => exact List.append_nil cs
  | cons c after =>
    have hc : ¬ keep c = true := by simp [hafter c rfl]
    rw [List.takeWhile_cons_of_neg hc, List.append_nil]

/-- A first line ends where the text does, or at a line feed. -/
theorem firstLine_append {t : String} (h : '\n' ∉ s.toList) (ht : ∀ c ∈ t.toList.head?, c = '\n') :
    firstLine (s ++ t) = s := by
  have hline : ∀ c ∈ s.toList, (c != '\n') = true := fun c hc => by
    simpa using ne_of_mem_of_not_mem hc h
  have hbehind : ∀ c ∈ t.toList.head?, (c != '\n') = false := fun c hc => by
    simpa using ht c hc
  rw [← String.toList_inj, firstLine, String.toList_ofList, String.toList_append,
    takeWhile_append_of_head? hline hbehind]

end RubyOutline.Text
