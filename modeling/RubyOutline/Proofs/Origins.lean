import RubyOutline.Proofs.Splitting
import RubyOutline.Settings

/-!
Origins kept apart by commas. Of the entries of a text those that are not blank count, without the
blanks around them; if there is none, the text stands for all origins. So origins are read back from
any text that lists them, whatever blanks and blank entries it has besides, and what has been read
once is read again as it is.
-/

namespace RubyOutline.Settings

open Text

variable {raw x : String} {xs entries : List String}

/-- An origin as it comes to be in the settings. -/
structure IsOrigin (x : String) : Prop where
  ne_empty : x ≠ ""
  comma_notMem : ',' ∉ x.toList
  strip_eq : strip x = x

instance (x : String) : Decidable (IsOrigin x) :=
  decidable_of_iff (x ≠ "" ∧ ',' ∉ x.toList ∧ strip x = x)
    ⟨fun ⟨hne, hcomma, hstrip⟩ => ⟨hne, hcomma, hstrip⟩,
      fun ⟨hne, hcomma, hstrip⟩ => ⟨hne, hcomma, hstrip⟩⟩

/-- Entries that list origins: each has its entry, with any blanks around it, and blank entries
stand anywhere between them. -/
inductive Lists : List String → List String → Prop
  | nil : Lists [] []
  | blank {entry : String} {entries xs : List String} (blank : ∀ c ∈ entry.toList, isBlank c = true)
      (rest : Lists entries xs) : Lists (entry :: entries) xs
  | origin {before x after : String} {entries xs : List String}
      (before_blank : ∀ c ∈ before.toList, isBlank c = true)
      (after_blank : ∀ c ∈ after.toList, isBlank c = true)
      (rest : Lists entries xs) : Lists ((before ++ x ++ after) :: entries) (x :: xs)

/-- What is left of entries, blank ones and blanks around them apart. -/
def written (entries : List String) : List String := (entries.filter isWritten).map strip

theorem written_cons_of_blank {entry : String} (h : ∀ c ∈ entry.toList, isBlank c = true)
    (entries : List String) : written (entry :: entries) = written entries := by
  rw [written, List.filter_cons_of_neg (by simp [isWritten_eq_false_iff.2 h]), written]

theorem written_cons_of_strip {entry : String} (h : strip entry ≠ "") (entries : List String) :
    written (entry :: entries) = strip entry :: written entries := by
  rw [written, List.filter_cons_of_pos (isWritten_eq_true_iff.2 h), List.map_cons, written]

theorem map_ofList_filter (entries : List (List Char)) :
    ((entries.map (trimBy isBlank)).filter (!·.isEmpty)).map String.ofList =
      written (entries.map String.ofList) := by
  have hwritten (cs : List Char) :
      isWritten (String.ofList cs) = !(trimBy isBlank cs).isEmpty := by
    rw [Bool.eq_iff_iff, isWritten_eq_true_iff, strip, String.toList_ofList]
    simp
  have hstrip (cs : List Char) : strip (String.ofList cs) = String.ofList (trimBy isBlank cs) := by
    rw [strip, String.toList_ofList]
  simp only [written, List.filter_map, List.map_map, Function.comp_def, hwritten, hstrip]

theorem readOrigins_eq (raw : String) :
    readOrigins raw =
      if written (parts ',' raw) = [] then ["*"] else written (parts ',' raw) := by
  rw [parts, ← splitAtChar_eq_splitOn, ← map_ofList_filter]
  simp only [readOrigins, List.isEmpty_iff, List.map_eq_nil_iff]

namespace IsOrigin

/-- Blanks around an origin are not part of it. -/
theorem strip_append_append (h : IsOrigin x) {before after : String}
    (hbefore : ∀ c ∈ before.toList, isBlank c = true)
    (hafter : ∀ c ∈ after.toList, isBlank c = true) : strip (before ++ x ++ after) = x := by
  have htrimmed : IsTrimmed isBlank x.toList := by
    rw [← h.strip_eq, strip, String.toList_ofList]
    exact isTrimmed_trimBy isBlank _
  rw [strip, String.toList_append, String.toList_append,
    htrimmed.trimBy_append_append hbefore hafter, String.ofList_toList]

end IsOrigin

theorem comma_notMem_of_blank {cs : List Char} (h : ∀ c ∈ cs, isBlank c = true) : ',' ∉ cs := by
  intro hcomma
  cases h _ hcomma

namespace Lists

theorem written_eq (h : Lists entries xs) (hxs : ∀ x ∈ xs, IsOrigin x) : written entries = xs := by
  induction h with
  | nil => rfl
  | blank hblank _ ih => rw [written_cons_of_blank hblank, ih hxs]
  | @origin before x after _ _ hbefore hafter _ ih =>
    have hx := hxs x List.mem_cons_self
    have hstrip := hx.strip_append_append hbefore hafter
    have hne : strip (before ++ x ++ after) ≠ "" := by
      rw [hstrip]
      exact hx.ne_empty
    rw [written_cons_of_strip hne, hstrip, ih fun y hy => hxs y (List.mem_cons_of_mem _ hy)]

theorem comma_notMem (h : Lists entries xs) (hxs : ∀ x ∈ xs, IsOrigin x) :
    ∀ entry ∈ entries, ',' ∉ entry.toList := by
  induction h with
  | nil => simp
  | blank hblank _ ih =>
    rw [List.forall_mem_cons]
    exact ⟨comma_notMem_of_blank hblank, ih hxs⟩
  | @origin before x after _ _ hbefore hafter _ ih =>
    rw [List.forall_mem_cons]
    refine ⟨?_, ih fun y hy => hxs y (List.mem_cons_of_mem _ hy)⟩
    simp [comma_notMem_of_blank hbefore, comma_notMem_of_blank hafter,
      (hxs x List.mem_cons_self).comma_notMem]

/-- Origins list themselves. -/
theorem refl (xs : List String) : Lists xs xs := by
  induction xs with
  | nil => exact .nil
  | cons x xs ih =>
    have h : Lists (("" ++ x ++ "") :: xs) (x :: xs) := .origin (by simp) (by simp) ih
    simpa using h

end Lists

theorem isOrigin_of_mem_written (h : x ∈ written (parts ',' raw)) : IsOrigin x := by
  obtain ⟨entry, hmem, rfl⟩ := List.mem_map.1 h
  obtain ⟨hpart, hwritten⟩ := List.mem_filter.1 hmem
  exact ⟨isWritten_eq_true_iff.1 hwritten, fun hcomma =>
    notMem_of_mem_parts hpart (mem_of_mem_strip hcomma), strip_strip entry⟩

theorem isOrigin_all : IsOrigin "*" := ⟨by decide, by decide, by decide⟩

theorem isOrigin_of_mem_readOrigins (h : x ∈ readOrigins raw) : IsOrigin x := by
  rw [readOrigins_eq] at h
  split at h
  · rw [List.mem_singleton.1 h]
    exact isOrigin_all
  · exact isOrigin_of_mem_written h

theorem readOrigins_ne_nil (raw : String) : readOrigins raw ≠ [] := by
  rw [readOrigins_eq]
  split
  · exact List.cons_ne_nil _ _
  · assumption

theorem readOrigins_intercalate (h : Lists entries xs) (hne : xs ≠ [])
    (hxs : ∀ x ∈ xs, IsOrigin x) : readOrigins (",".intercalate entries) = xs := by
  have hentries : entries ≠ [] := by
    rintro rfl
    cases h
    exact hne rfl
  have hparts : parts ',' (",".intercalate entries) = entries :=
    parts_intercalate hentries (h.comma_notMem hxs)
  rw [readOrigins_eq, hparts, h.written_eq hxs, if_neg hne]

/-- There is nothing but blanks between the commas of a text just where no entry is written. -/
theorem written_parts_eq_nil_iff :
    written (parts ',' raw) = [] ↔ ∀ c ∈ raw.toList, c = ',' ∨ isBlank c = true := by
  simp only [written, List.map_eq_nil_iff, List.filter_eq_nil_iff, Bool.not_eq_true,
    isWritten_eq_false_iff, forall_mem_parts_iff]

theorem readOrigins_eq_all_iff :
    readOrigins raw = ["*"] ↔ (∀ c ∈ raw.toList, c = ',' ∨ isBlank c = true) ∨
      ∃ entry, (parts ',' raw).filter isWritten = [entry] ∧ strip entry = "*" := by
  rw [readOrigins_eq, ← written_parts_eq_nil_iff]
  split
  · next hnil => simp [hnil]
  · next hne => rw [or_iff_right hne, written, List.map_eq_singleton_iff]

/-- Origins are read back from any text that lists them, so that a list of origins once read is
read again as it is; and all origins are meant just where nothing is written between the commas,
or a single star. -/
theorem readOrigins_listed :
    (∀ xs entries, xs ≠ [] → (∀ x ∈ xs, IsOrigin x) → Lists entries xs →
        readOrigins (",".intercalate entries) = xs) ∧
      (∀ raw, readOrigins (",".intercalate (readOrigins raw)) = readOrigins raw) ∧
      ∀ raw, readOrigins raw = ["*"] ↔ (∀ c ∈ raw.toList, c = ',' ∨ isBlank c = true) ∨
        ∃ entry, (parts ',' raw).filter isWritten = [entry] ∧ strip entry = "*" := by
  refine ⟨fun xs entries hne hxs h => readOrigins_intercalate h hne hxs, fun raw => ?_,
    fun raw => readOrigins_eq_all_iff⟩
  exact readOrigins_intercalate (Lists.refl _) (readOrigins_ne_nil raw)
    fun x => isOrigin_of_mem_readOrigins

/-- Two origins among blank entries, with blanks around them. -/
def looseEntries : List String :=
  [" ", "" ++ "http://a.test" ++ "\u2003", "", "\t" ++ "*" ++ ""]

theorem readOrigins_listed_loose :
    ["http://a.test", "*"] ≠ [] ∧ (∀ x ∈ ["http://a.test", "*"], IsOrigin x) ∧
      Lists looseEntries ["http://a.test", "*"] ∧
      readOrigins (",".intercalate looseEntries) = ["http://a.test", "*"] := by
  have hxs : ∀ x ∈ ["http://a.test", "*"], IsOrigin x := by decide +kernel
  have blank (s : String) (h : s.toList.all isBlank = true) : ∀ c ∈ s.toList, isBlank c = true :=
    List.all_eq_true.1 h
  have hlists : Lists looseEntries ["http://a.test", "*"] := by
    apply Lists.blank (blank " " (by decide))
    apply Lists.origin (blank "" rfl) (blank "\u2003" (by decide))
    apply Lists.blank (blank "" rfl)
    apply Lists.origin (blank "\t" (by decide)) (blank "" rfl)
    exact .nil
  exact ⟨by simp, hxs, hlists, readOrigins_listed.1 _ _ (by simp) hxs hlists⟩

end RubyOutline.Settings
