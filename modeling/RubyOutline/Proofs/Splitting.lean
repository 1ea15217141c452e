import RubyOutline.Proofs.Trimming

/-!
A text cut wherever a character stands. The parts are those of `List.splitOn`: together they have
the characters of the text but the one it is cut at, they make up the text again when that one is
put between them, and any parts without it are found again in the text that they make up.
-/

namespace RubyOutline.Text

variable {sep : Char}

theorem splitAtChar_eq_splitOn (sep : Char) (cs : List Char) :
    splitAtChar sep cs = cs.splitOn sep := by
  induction cs with
  | nil => rfl
  | cons c cs ih =>
    obtain ⟨part, parts, hparts⟩ := List.exists_cons_of_ne_nil (List.splitOn_ne_nil sep cs)
    rw [splitAtChar, ih, List.splitOn_cons_eq_if_modifyHead, hparts]
    by_cases hc : c = sep
    · simp [hc]
    · simp [hc]

theorem forall_mem_splitOn_iff {holds : Char → Prop} {cs : List Char} :
    (∀ part ∈ cs.splitOn sep, ∀ c ∈ part, holds c) ↔ ∀ c ∈ cs, c = sep ∨ holds c := by
  induction cs with
  | nil => simp
  | cons c cs ih =>
    obtain ⟨part, parts, hparts⟩ := List.exists_cons_of_ne_nil (List.splitOn_ne_nil sep cs)
    rw [List.splitOn_cons_eq_if_modifyHead]
    by_cases hc : c = sep
    · simp [hc, ih]
    · rw [List.forall_mem_cons, ← ih, hparts]
      simp [hc, and_assoc]

/-- The parts of a text between the places where a character stands. -/
def parts (sep : Char) (s : String) : List String := (s.toList.splitOn sep).map String.ofList

variable {s : String}

theorem map_toList_parts (sep : Char) (s : String) :
    (parts sep s).map String.toList = s.toList.splitOn sep := by
  simp [parts, Function.comp_def]

theorem forall_mem_parts_iff {holds : Char → Prop} :
    (∀ part ∈ parts sep s, ∀ c ∈ part.toList, holds c) ↔ ∀ c ∈ s.toList, c = sep ∨ holds c := by
  rw [← forall_mem_splitOn_iff, ← map_toList_parts, List.forall_mem_map]

theorem notMem_of_mem_parts {part : String} (h : part ∈ parts sep s) : sep ∉ part.toList :=
  fun hsep => forall_mem_parts_iff.2 (fun c _ => em (c = sep)) part h sep hsep rfl

theorem intercalate_parts (sep : Char) (s : String) :
    (String.singleton sep).intercalate (parts sep s) = s := by
  rw [← String.toList_inj, String.toList_intercalate, map_toList_parts, String.toList_singleton,
    List.intercalate_splitOn]

theorem parts_intercalate {ps : List String} (hne : ps ≠ []) (h : ∀ part ∈ ps, sep ∉ part.toList) :
    parts sep ((String.singleton sep).intercalate ps) = ps := by
  have hchars : ∀ cs ∈ ps.map String.toList, sep ∉ cs := by
    rintro _ hcs
    obtain ⟨part, hpart, rfl⟩ := List.mem_map.1 hcs
    exact h part hpart
  rw [parts, String.toList_intercalate, String.toList_singleton,
    List.splitOn_intercalate sep hchars (by simpa using hne)]
  simp [Function.comp_def]

end RubyOutline.Text
