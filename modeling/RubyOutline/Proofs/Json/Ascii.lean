import RubyOutline.Proofs.Json.Documents

/-!
Documents in ASCII. A style that escapes whatever is not printable ASCII writes nothing else
for any text: a character stands for itself, or is named by a letter or by hexadecimal digits.
-/

namespace RubyOutline

open Text (CodePoint)

/-- All characters are in ASCII. -/
def IsAscii (cs : List Char) : Prop := ∀ c ∈ cs, c.toNat < 0x80

instance (cs : List Char) : Decidable (IsAscii cs) :=
  decidable_of_iff (cs.all fun c => c.toNat < 0x80) (by simp [IsAscii])

@[simp] theorem isAscii_nil : IsAscii [] := nofun

@[simp] theorem isAscii_cons {c : Char} {cs : List Char} :
    IsAscii (c :: cs) ↔ c.toNat < 0x80 ∧ IsAscii cs := List.forall_mem_cons

@[simp] theorem isAscii_append {cs ds : List Char} :
    IsAscii (cs ++ ds) ↔ IsAscii cs ∧ IsAscii ds := List.forall_mem_append

namespace Json

theorem toNat_digitChar_lt {d : Nat} (hd : d < 16) : d.digitChar.toNat < 0x80 := by
  have (i : Fin 16) : i.val.digitChar.toNat < 0x80 := by
    revert i
    decide
  exact this ⟨d, hd⟩

theorem isAscii_unitEscape {n : Nat} (hn : n < 0x10000) : IsAscii (unitEscape n) := by
  have hdigits : IsAscii (Text.hexDigits 4 n) := by
    intro c hc
    obtain ⟨d, hd, rfl⟩ := Text.mem_hexDigits_four hn hc
    exact toNat_digitChar_lt hd
  simp [unitEscape, hdigits]

theorem isAscii_unitsEscape (c : Char) : IsAscii (unitsEscape c) := by
  have hc := Text.char_range c
  unfold unitsEscape
  by_cases h : c.toNat < 0x10000
  · simp only [if_pos h]
    exact isAscii_unitEscape h
  · simp only [if_neg h, isAscii_append]
    exact ⟨isAscii_unitEscape (by omega), isAscii_unitEscape (by omega)⟩

theorem toNat_lt_of_escaped? {letter c : Char} (h : escaped? (.scalar letter) = some c) :
    letter.toNat < 0x80 := by
  unfold escaped? at h
  split at h
  case h_9 => cases h
  all_goals
    next hletter =>
      obtain rfl := CodePoint.scalar.inj hletter
      decide

variable {style : Style}

theorem isAscii_char (hs : style.ascii = true) (c : Char) : IsAscii (style.char c) := by
  obtain ⟨letter, hletter, hescaped⟩ | ⟨hself, hplain, -, -⟩ | hunits := style.char_cases c
  · rw [hletter]
    simp [toNat_lt_of_escaped? hescaped]
  · simp only [Style.isPlain, hs, if_true, Bool.and_eq_true, decide_eq_true_eq] at hplain
    rw [hself, isAscii_cons]
    exact ⟨by omega, isAscii_nil⟩
  · rw [hunits]
    exact isAscii_unitsEscape c

theorem isAscii_text (hs : style.ascii = true) (s : String) : IsAscii (style.text s) := by
  have h : IsAscii (s.toList.flatMap style.char) := by
    intro c hc
    obtain ⟨d, -, hd⟩ := List.mem_flatMap.mp hc
    exact isAscii_char hs d c hd
  simp [Style.text, h]

theorem isAscii_newLine (style : Style) (depth : Nat) : IsAscii (style.newLine depth) := by
  intro c hc
  obtain rfl | rfl := style.mem_newLine hc <;> decide

theorem isAscii_colon (style : Style) : IsAscii style.colon := by
  rw [Style.colon]
  split <;> decide

theorem isAscii_integer (n : Int) : IsAscii (toString n).toList := by
  have hdigit {c : Char} (h : CodePoint.scalar c ∈ digits n.natAbs) : c.toNat < 0x80 := by
    have hc := isDigit_of_mem_digits h
    simp only [isDigit, Bool.and_eq_true, decide_eq_true_eq] at hc
    simp only [CodePoint.value] at hc
    omega
  intro c hc
  have hmem : CodePoint.scalar c ∈ integerText n := List.mem_map_of_mem hc
  by_cases hn : 0 ≤ n
  · rw [integerText_of_nonneg hn] at hmem
    exact hdigit hmem
  · rw [integerText_of_neg (by omega), List.mem_cons] at hmem
    obtain hminus | hmem := hmem
    · obtain rfl := CodePoint.scalar.inj hminus
      decide
    · exact hdigit hmem

mutual

theorem isAscii_chars (hs : style.ascii = true) (depth : Nat) (v : Json String)
    (hv : v.isWhole = true) : IsAscii (chars style depth v) := by
  match v with
  | null => exact show IsAscii "null".toList by decide
  | bool true => exact show IsAscii "true".toList by decide
  | bool false => exact show IsAscii "false".toList by decide
  | int n => exact isAscii_integer n
  | real literal => simp [isWhole] at hv
  | string s => exact isAscii_text hs s
  | array [] => exact show IsAscii ['[', ']'] by decide
  | array (v :: vs) =>
    simp only [isWhole, areWhole, Bool.and_eq_true] at hv
    have hfirst := isAscii_chars hs (depth + 1) v hv.1
    have hrest := isAscii_itemChars hs (depth + 1) vs hv.2
    simp [chars, isAscii_newLine, hfirst, hrest]
  | object [] => exact show IsAscii ['\x7b', '\x7d'] by decide
  | object ((name, v) :: rest) =>
    simp only [isWhole, membersWhole, Bool.and_eq_true] at hv
    have hfirst := isAscii_chars hs (depth + 1) v hv.1
    have hrest := isAscii_memberChars hs (depth + 1) rest hv.2
    simp [chars, isAscii_newLine, isAscii_text hs, isAscii_colon, hfirst, hrest]

theorem isAscii_itemChars (hs : style.ascii = true) (depth : Nat) (vs : List (Json String))
    (hvs : areWhole vs = true) : IsAscii (itemChars style depth vs) := by
  match vs with
  | [] => exact isAscii_nil
  | v :: vs =>
    simp only [areWhole, Bool.and_eq_true] at hvs
    have hfirst := isAscii_chars hs depth v hvs.1
    have hrest := isAscii_itemChars hs depth vs hvs.2
    simp [itemChars, isAscii_newLine, hfirst, hrest]

theorem isAscii_memberChars (hs : style.ascii = true) (depth : Nat)
    (members : List (String × Json String)) (hmembers : membersWhole members = true) :
    IsAscii (memberChars style depth members) := by
  match members with
  | [] => exact isAscii_nil
  | (name, v) :: rest =>
    simp only [membersWhole, Bool.and_eq_true] at hmembers
    have hfirst := isAscii_chars hs depth v hmembers.1
    have hrest := isAscii_memberChars hs depth rest hmembers.2
    simp [memberChars, isAscii_newLine, isAscii_text hs, isAscii_colon, hfirst, hrest]

end

theorem isAscii_render (hs : style.ascii = true) (v : Json String) (hv : v.isWhole = true) :
    IsAscii (render style v).toList := by
  rw [render, String.toList_ofList]
  exact isAscii_chars hs 0 v hv

end Json

end RubyOutline
