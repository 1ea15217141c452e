import RubyOutline.Json.Token
import RubyOutline.Proofs.Json.Quoting

/-!
Integers are read back. A reader takes all digits that it finds, and a point or an exponent
behind them makes another number; so an integer is read as it was written only where none of
these follows, which is so between the items of a document and at its end.
-/

namespace RubyOutline.Json

open Text (CodePoint WideText)

/-- The text `s` begins with a token, and `t` is what is behind it. -/
def Begins (s : WideText) (lexeme : Lexeme) (t : WideText) : Prop :=
  ∃ c rest, s = c :: rest ∧ isBlank c = false ∧ readLexeme c rest = (lexeme, t)

/-- A number before the text ends where the text begins. -/
def EndsNumber (t : WideText) : Prop :=
  ∀ c ∈ t.head?, isDigit c = false ∧ c ≠ .scalar '.' ∧ c ≠ .scalar 'e' ∧ c ≠ .scalar 'E'

def digits (n : Nat) : WideText := scalars (Nat.toDigits 10 n)

/-! ### Digits of a natural number -/

theorem isDigit_of_mem_digits {n : Nat} {c : CodePoint} (h : c ∈ digits n) :
    isDigit c = true := by
  obtain ⟨d, hd, rfl⟩ := List.mem_map.mp h
  have hdigit := Nat.isDigit_of_mem_toDigits (by omega) (by omega) hd
  simp only [Char.isDigit, Bool.and_eq_true, decide_eq_true_eq, UInt32.le_iff_toNat_le] at hdigit
  simp only [isDigit, Bool.and_eq_true, decide_eq_true_eq]
  exact hdigit

theorem naturalOf_digits (n : Nat) : naturalOf (digits n) = n := by
  have h : naturalOf (digits n) = Nat.ofDigitChars 10 (Nat.toDigits 10 n) 0 := by
    simp only [naturalOf, digits, scalars, List.foldl_map, Nat.ofDigitChars, CodePoint.value,
      Nat.mul_comm]
    rfl
  rw [h, Nat.ofDigitChars_ten_toDigits]

theorem isEmpty_digits (n : Nat) : (digits n).isEmpty = false := by
  simp [digits, scalars]

theorem digits_of_ten_le {n : Nat} (hn : 10 ≤ n) :
    digits n = digits (n / 10) ++ [.scalar (n % 10).digitChar] := by
  have h := Nat.toDigits_eq_if (b := 10) (n := n) (by omega)
  rw [digits, h, if_neg (by omega), scalars_append]
  rfl

/-- The first digit is not zero unless the number is. -/
theorem digits_eq_cons (n : Nat) :
    ∃ d ds, digits n = .scalar d.digitChar :: ds ∧ d < 10 ∧ (0 < n → 0 < d) := by
  induction n using Nat.strongRecOn with
  | ind n ih =>
    by_cases h : n < 10
    · exact ⟨n, [], by simp [digits, Nat.toDigits_of_lt_base h], h, id⟩
    · obtain ⟨d, ds, hd, hlt, hpos⟩ := ih (n / 10) (by omega)
      refine ⟨d, ds ++ [.scalar (n % 10).digitChar], ?_, hlt, fun _ => hpos (by omega)⟩
      rw [digits_of_ten_le (by omega), hd, List.cons_append]

theorem head?_digits_append (n : Nat) (t : WideText) :
    (digits n ++ t).head? ≠ some (.scalar '-') := by
  obtain ⟨d, ds, hd, -⟩ := digits_eq_cons n
  have hdigit : isDigit (.scalar d.digitChar) = true :=
    isDigit_of_mem_digits (hd ▸ List.mem_cons_self)
  rw [hd, List.cons_append, List.head?_cons]
  intro h
  rw [Option.some.inj h] at hdigit
  exact absurd hdigit (by decide)

/-! ### The parts of a number -/

variable {t : WideText}

theorem takeWhile_isDigit (ht : EndsNumber t) : t.takeWhile isDigit = [] := by
  cases t with
  | nil => rfl
  | cons c t => simp [(ht c rfl).1]

theorem wholePart_digits (n : Nat) (ht : EndsNumber t) :
    wholePart (digits n ++ t) = digits n := by
  obtain rfl | hn := Nat.eq_zero_or_pos n
  · rfl
  · obtain ⟨d, ds, hd, hlt, hpos⟩ := digits_eq_cons n
    have hzero : d.digitChar ≠ '0' := by
      have := hpos hn
      simp only [ne_eq, Nat.digitChar_eq_zero]
      omega
    have hwhole : wholePart (digits n ++ t) = (digits n ++ t).takeWhile isDigit := by
      rw [hd, List.cons_append, wholePart]
      intro rest h
      exact hzero (by simpa using congrArg List.head? h)
    rw [hwhole, List.takeWhile_append_of_pos fun c hc => isDigit_of_mem_digits hc,
      takeWhile_isDigit ht, List.append_nil]

theorem fractionPart_eq_nil (ht : EndsNumber t) : fractionPart t = [] := by
  cases t with
  | nil => rfl
  | cons c t =>
    rw [fractionPart]
    rintro _ ⟨⟩
    exact (ht _ rfl).2.1 rfl

theorem exponentPart_eq_nil (ht : EndsNumber t) : exponentPart t = [] := by
  cases t with
  | nil => rfl
  | cons c t =>
    obtain ⟨-, -, he, hE⟩ := ht c rfl
    simp [exponentPart, he, hE]

theorem readNumber_digits (n : Nat) (ht : EndsNumber t) :
    readNumber (digits n ++ t) = some (.integer n (digits n).length, (digits n).length) := by
  simp [-List.head?_append, readNumber, head?_digits_append, wholePart_digits n ht,
    fractionPart_eq_nil ht, exponentPart_eq_nil ht, isEmpty_digits, naturalOf_digits]

theorem readNumber_neg_digits (n : Nat) (ht : EndsNumber t) :
    readNumber (.scalar '-' :: (digits n ++ t)) =
      some (.integer (-n) (digits n).length, (digits n).length + 1) := by
  simp [readNumber, wholePart_digits n ht, fractionPart_eq_nil ht, exponentPart_eq_nil ht,
    isEmpty_digits, naturalOf_digits, Nat.add_comm 1]

/-! ### No word begins like a number -/

theorem readWord_of_isDigit {c : CodePoint} (h : isDigit c = true) (t : WideText) :
    readWord (c :: t) = none := by
  have hne (d : Char) (hd : isDigit (.scalar d) = false) : CodePoint.scalar d ≠ c := by
    rintro rfl
    simp [hd] at h
  simp [readWord, words, Text.wide, hne 'n' rfl, hne 't' rfl, hne 'f' rfl, hne 'N' rfl,
    hne 'I' rfl, hne '-' rfl]

theorem readWord_neg_of_isDigit {c : CodePoint} (h : isDigit c = true) (t : WideText) :
    readWord (.scalar '-' :: c :: t) = none := by
  have hne : CodePoint.scalar 'I' ≠ c := by
    rintro rfl
    simp [isDigit, CodePoint.value] at h
  simp [readWord, words, Text.wide, hne]

theorem readLexeme_of_readNumber {c : CodePoint} {lexeme : Lexeme} {length : Nat}
    (hc : isDigit c = true ∨ c = .scalar '-') (hw : readWord (c :: t) = none)
    (hn : readNumber (c :: t) = some (lexeme, length)) :
    readLexeme c t = (lexeme, t.drop (length - 1)) := by
  unfold readLexeme
  split
  case h_8 => simp only [hw, hn, Option.none_or]
  all_goals simp [isDigit, CodePoint.value] at hc

/-! ### Integers -/

/-- An integer as it is written. -/
def integerText (n : Int) : WideText := scalars (toString n).toList

theorem integerText_of_nonneg {n : Int} (hn : 0 ≤ n) : integerText n = digits n.natAbs := by
  have h : n.toNat = n.natAbs := by omega
  rw [integerText, Int.toString_eq_repr, Int.repr_eq_if, if_pos hn, Nat.repr_eq_ofList_toDigits,
    String.toList_ofList, h, digits]

theorem integerText_of_neg {n : Int} (hn : n < 0) :
    integerText n = .scalar '-' :: digits n.natAbs := by
  have h : (-n).toNat = n.natAbs := by omega
  rw [integerText, Int.toString_eq_repr, Int.repr_eq_if, if_neg (by omega),
    Nat.repr_eq_ofList_toDigits, String.toList_append, String.toList_ofList, h, digits]
  simp

theorem isBlank_of_isDigit {c : CodePoint} (h : isDigit c = true) : isBlank c = false := by
  cases c with
  | surrogate offset => rfl
  | scalar c =>
    have hne (d : Char) (hd : isDigit (.scalar d) = false) : c ≠ d := by
      rintro rfl
      simp [hd] at h
    simp [isBlank, hne ' ' rfl, hne '\t' rfl, hne '\n' rfl, hne '\r' rfl]

/-- An integer is read back as one token, where nothing behind it belongs to it. -/
theorem begins_integerText (n : Int) (ht : EndsNumber t) :
    Begins (integerText n ++ t) (.integer n (digits n.natAbs).length) t := by
  obtain ⟨d, ds, hd, -⟩ := digits_eq_cons n.natAbs
  have hdigit : isDigit (.scalar d.digitChar) = true :=
    isDigit_of_mem_digits (hd ▸ List.mem_cons_self)
  by_cases hn : 0 ≤ n
  · have hvalue : (n.natAbs : Int) = n := by omega
    have hnumber := readNumber_digits n.natAbs ht
    rw [hd, List.cons_append, hvalue] at hnumber
    refine ⟨.scalar d.digitChar, ds ++ t, ?_, isBlank_of_isDigit hdigit, ?_⟩
    · rw [integerText_of_nonneg hn, hd, List.cons_append]
    · rw [readLexeme_of_readNumber (.inl hdigit) (readWord_of_isDigit hdigit _) hnumber, hd]
      simp
  · have hvalue : -(n.natAbs : Int) = n := by omega
    have hnumber := readNumber_neg_digits n.natAbs ht
    rw [hd, List.cons_append, hvalue] at hnumber
    refine ⟨.scalar '-', .scalar d.digitChar :: (ds ++ t), ?_, rfl, ?_⟩
    · rw [integerText_of_neg (by omega), hd, List.cons_append, List.cons_append]
    · rw [readLexeme_of_readNumber (.inr rfl) (readWord_neg_of_isDigit hdigit _) hnumber, hd]
      simp

end RubyOutline.Json
