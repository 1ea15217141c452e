import RubyOutline.Json.Printer
import RubyOutline.Json.Token

/-!
Texts in quotes are read back. Whatever a character is written as, a reader makes that
character of it again: a letter behind a backslash, the character itself, or the numbers of
its code units, two of which are read as one character. A reader takes a number escape only
if something follows it, which between quotes is always so.
-/

namespace RubyOutline

open Text (CodePoint WideText)

/-- Characters as code points. -/
def scalars (cs : List Char) : WideText := cs.map .scalar

@[simp] theorem scalars_nil : scalars [] = [] := rfl

@[simp] theorem scalars_cons (c : Char) (cs : List Char) :
    scalars (c :: cs) = .scalar c :: scalars cs := rfl

@[simp] theorem scalars_append (cs ds : List Char) :
    scalars (cs ++ ds) = scalars cs ++ scalars ds := List.map_append

/-! ### Code points and their numbers -/

theorem Text.hexDigits_succ {width : Nat} (hw : 0 < width) (n : Nat) :
    hexDigits (width + 1) n = hexDigits width (n / 16) ++ [(n % 16).digitChar] := by
  by_cases hn : n < 16
  · obtain ⟨w, rfl⟩ : ∃ w, width = w + 1 := ⟨width - 1, by omega⟩
    have hquotient : n / 16 = 0 := Nat.div_eq_of_lt hn
    have hzero : Nat.toDigits 16 0 = ['0'] := rfl
    simp only [hexDigits, hquotient, hzero, Nat.toDigits_of_lt_base hn, Nat.mod_eq_of_lt hn,
      List.length_singleton, Nat.add_sub_cancel, List.replicate_succ']
  · have hlast := Nat.toDigits_eq_if (b := 16) (n := n) (by omega)
    rw [if_neg hn] at hlast
    simp only [hexDigits, hlast, List.length_append, List.length_singleton,
      Nat.add_sub_add_right, List.append_assoc]

theorem Text.hexDigits_four {n : Nat} (hn : n < 0x10000) :
    hexDigits 4 n = [(n / 16 / 16 / 16).digitChar, (n / 16 / 16 % 16).digitChar,
      (n / 16 % 16).digitChar, (n % 16).digitChar] := by
  have hone : hexDigits 1 (n / 16 / 16 / 16) = [(n / 16 / 16 / 16).digitChar] := by
    simp [hexDigits, Nat.toDigits_of_lt_base (show n / 16 / 16 / 16 < 16 by omega)]
  simp [hexDigits_succ, hone]

theorem Text.mem_hexDigits_four {n : Nat} (hn : n < 0x10000) {c : Char}
    (h : c ∈ hexDigits 4 n) : ∃ d, d < 16 ∧ c = d.digitChar := by
  simp only [hexDigits_four hn, List.mem_cons, List.not_mem_nil, or_false] at h
  obtain rfl | rfl | rfl | rfl := h
  all_goals exact ⟨_, by omega, rfl⟩

theorem Text.char_range (c : Char) :
    c.toNat < 0xD800 ∨ 0xE000 ≤ c.toNat ∧ c.toNat < 0x110000 := by
  obtain h | ⟨h, h'⟩ := c.valid
  · exact .inl h
  · exact .inr ⟨h, h'⟩

theorem Text.CodePoint.ofNat?_toNat (c : Char) : ofNat? c.toNat = some (.scalar c) := by
  have hc := char_range c
  rw [ofNat?, dif_neg (by omega), if_pos (by omega), Char.ofNat_toNat]

namespace Json

theorem hexValue?_digitChar {d : Nat} (hd : d < 16) :
    hexValue? (.scalar d.digitChar) = some d := by
  have (i : Fin 16) : hexValue? (.scalar i.val.digitChar) = some i.val := by
    revert i
    decide
  exact this ⟨d, hd⟩

theorem hexFour?_hexDigits {n : Nat} (hn : n < 0x10000) :
    ∃ a b c d, scalars (Text.hexDigits 4 n) = [a, b, c, d] ∧ hexFour? a b c d = some n := by
  refine ⟨_, _, _, _, congrArg scalars (Text.hexDigits_four hn), ?_⟩
  have h₁ := hexValue?_digitChar (show n / 16 / 16 / 16 < 16 by omega)
  have h₂ := hexValue?_digitChar (show n / 16 / 16 % 16 < 16 by omega)
  have h₃ := hexValue?_digitChar (show n / 16 % 16 < 16 by omega)
  have h₄ := hexValue?_digitChar (show n % 16 < 16 by omega)
  have hn : ((n / 16 / 16 / 16 * 16 + n / 16 / 16 % 16) * 16 + n / 16 % 16) * 16 + n % 16 = n := by
    omega
  simp [hexFour?, h₁, h₂, h₃, h₄, hn]

/-! ### One step of a reader between quotes -/

theorem readQuoted_plain {c : CodePoint} (hq : c ≠ .scalar '"') (hs : c ≠ .scalar '\\')
    (hv : 0x20 ≤ c.value) (t : WideText) :
    readQuoted (c :: t) = prepend c (readQuoted t) := by
  rw [readQuoted]
  · exact if_neg (Nat.not_lt.mpr hv)
  all_goals simp [hq, hs]

theorem readQuoted_letter {c : CodePoint} {e : Char} (h : escaped? c = some e) (t : WideText) :
    readQuoted (.scalar '\\' :: c :: t) = prepend (.scalar e) (readQuoted t) := by
  have hc : c ≠ .scalar 'u' := by
    rintro rfl
    simp [escaped?] at h
  rw [readQuoted]
  · simp [h]
  all_goals simp [hc]

theorem readQuoted_number {a b c d : CodePoint} {n : Nat} (h : hexFour? a b c d = some n)
    (hn : Text.isHighSurrogate n = false) {t : WideText} (ht : t ≠ []) :
    readQuoted (.scalar '\\' :: .scalar 'u' :: a :: b :: c :: d :: t) =
      prepend ((CodePoint.ofNat? n).getD (.scalar '\uFFFD')) (readQuoted t) := by
  -- What follows may be a number escape too, which could have been the second of a pair.
  by_cases hu : ∃ e f g h i r, t = .scalar '\\' :: .scalar 'u' :: e :: f :: g :: h :: i :: r
  · obtain ⟨e, f, g, h', i, r, rfl⟩ := hu
    rw [readQuoted]
    simp [h, hn]
  · obtain ⟨e, r, rfl⟩ := List.exists_cons_of_ne_nil ht
    rw [readQuoted]
    · simp [h]
    · rintro e' f g h' i r' rfl rfl
      exact hu ⟨e', f, g, h', i, r', rfl⟩

theorem readQuoted_pair {a b c d e f g h : CodePoint} {high low : Nat}
    (hhigh : hexFour? a b c d = some high) (hlow : hexFour? e f g h = some low)
    (ishigh : Text.isHighSurrogate high = true) (islow : Text.isLowSurrogate low = true)
    {t : WideText} (ht : t ≠ []) :
    readQuoted (.scalar '\\' :: .scalar 'u' :: a :: b :: c :: d ::
        .scalar '\\' :: .scalar 'u' :: e :: f :: g :: h :: t) =
      prepend (Text.joinSurrogates high low) (readQuoted t) := by
  obtain ⟨i, t, rfl⟩ := List.exists_cons_of_ne_nil ht
  rw [readQuoted]
  simp [hhigh, hlow, ishigh, islow]

theorem readQuoted_unitEscape {n : Nat} (hn : n < 0x10000) (hs : Text.isHighSurrogate n = false)
    {t : WideText} (ht : t ≠ []) :
    readQuoted (scalars (unitEscape n) ++ t) =
      prepend ((CodePoint.ofNat? n).getD (.scalar '\uFFFD')) (readQuoted t) := by
  obtain ⟨a, b, c, d, hdigits, hvalue⟩ := hexFour?_hexDigits hn
  simp only [unitEscape, scalars_cons, hdigits, List.cons_append, List.nil_append]
  exact readQuoted_number hvalue hs ht

theorem readQuoted_unitEscapes {high low : Nat} (hhigh : Text.isHighSurrogate high = true)
    (hlow : Text.isLowSurrogate low = true) {t : WideText} (ht : t ≠ []) :
    readQuoted (scalars (unitEscape high ++ unitEscape low) ++ t) =
      prepend (Text.joinSurrogates high low) (readQuoted t) := by
  have hhigh' : high < 0x10000 := by
    simp only [Text.isHighSurrogate, Bool.and_eq_true, decide_eq_true_eq] at hhigh
    omega
  have hlow' : low < 0x10000 := by
    simp only [Text.isLowSurrogate, Bool.and_eq_true, decide_eq_true_eq] at hlow
    omega
  obtain ⟨a, b, c, d, hdigits, hvalue⟩ := hexFour?_hexDigits hhigh'
  obtain ⟨e, f, g, h, hdigits', hvalue'⟩ := hexFour?_hexDigits hlow'
  simp only [unitEscape, scalars_append, scalars_cons, hdigits, hdigits', List.cons_append,
    List.nil_append]
  exact readQuoted_pair hvalue hvalue' hhigh hlow ht

/-! ### Characters -/

/-- Code units make the character again that they have been made of. -/
theorem readQuoted_unitsEscape (c : Char) {t : WideText} (ht : t ≠ []) :
    readQuoted (scalars (unitsEscape c) ++ t) = prepend (.scalar c) (readQuoted t) := by
  have hc := Text.char_range c
  unfold unitsEscape
  by_cases h : c.toNat < 0x10000
  · have hs : Text.isHighSurrogate c.toNat = false := by
      simp only [Text.isHighSurrogate, Bool.and_eq_false_iff, decide_eq_false_iff_not]
      omega
    simp only [if_pos h]
    rw [readQuoted_unitEscape h hs ht, CodePoint.ofNat?_toNat, Option.getD_some]
  · have hhigh : Text.isHighSurrogate (0xD800 + (c.toNat - 0x10000) / 0x400) = true := by
      simp only [Text.isHighSurrogate, Bool.and_eq_true, decide_eq_true_eq]
      omega
    have hlow : Text.isLowSurrogate (0xDC00 + (c.toNat - 0x10000) % 0x400) = true := by
      simp only [Text.isLowSurrogate, Bool.and_eq_true, decide_eq_true_eq]
      omega
    have hjoin : 0x10000 + (0xD800 + (c.toNat - 0x10000) / 0x400 - 0xD800) * 0x400 +
        (0xDC00 + (c.toNat - 0x10000) % 0x400 - 0xDC00) = c.toNat := by
      omega
    simp only [if_neg h]
    rw [readQuoted_unitEscapes hhigh hlow ht, Text.joinSurrogates, hjoin, Char.ofNat_toNat]

/-- The ways of writing a character between quotes. -/
theorem Style.char_cases (style : Style) (c : Char) :
    (∃ letter, style.char c = ['\\', letter] ∧ escaped? (.scalar letter) = some c) ∨
      (style.char c = [c] ∧ style.isPlain c = true ∧ c ≠ '"' ∧ c ≠ '\\') ∨
      style.char c = unitsEscape c := by
  unfold Style.char
  repeat' split
  all_goals
    first
    | exact .inl ⟨_, rfl, by subst c; rfl⟩
    | exact .inr (.inl ⟨rfl, by assumption, by assumption, by assumption⟩)
    | exact .inr (.inr rfl)

theorem Style.le_of_isPlain {style : Style} {c : Char} (h : style.isPlain c = true) :
    0x20 ≤ c.toNat := by
  rw [Style.isPlain] at h
  split at h <;> simp at h <;> omega

theorem readQuoted_char (style : Style) (c : Char) {t : WideText} (ht : t ≠ []) :
    readQuoted (scalars (style.char c) ++ t) = prepend (.scalar c) (readQuoted t) := by
  obtain ⟨letter, hletter, hescaped⟩ | ⟨hself, hplain, hq, hs⟩ | hunits := style.char_cases c
  · rw [hletter]
    exact readQuoted_letter hescaped t
  · rw [hself]
    exact readQuoted_plain (c := .scalar c) (by simpa using hq) (by simpa using hs)
      (Style.le_of_isPlain hplain) t
  · rw [hunits]
    exact readQuoted_unitsEscape c ht

/-- A text in quotes is read back, up to the quote that closes it. -/
theorem readQuoted_flatMap_char (style : Style) (cs : List Char) (t : WideText) :
    readQuoted (scalars (cs.flatMap style.char) ++ .scalar '"' :: t) = .ok (scalars cs, t) := by
  induction cs with
  | nil => simp [readQuoted]
  | cons c cs ih =>
    rw [List.flatMap_cons, scalars_append, List.append_assoc,
      readQuoted_char style c (by simp), ih]
    rfl

end Json

end RubyOutline
