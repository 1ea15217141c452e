import Mathlib.Data.Nat.Digits.Defs
import RubyOutline.Proofs.Trimming
import RubyOutline.Settings

/-!
The texts that denote integers, told by a grammar: blanks on either side, a sign or none, and a run
of digits in which single underscores may stand between two digits. The reader of integers
accepts this language and no other, with the value that the digits have in base ten; so a port is
read exactly from such a text, and refused for one of two causes that exclude each other.
-/

namespace RubyOutline

namespace Text

variable {c : Char} {d : Nat} {cs run : List Char} {ds : List Nat}

/-! ### Digits -/

/-- Digits of any script, one behind the other or with an underscore between them, and their
values. -/
inductive DigitRun : List Char → List Nat → Prop
  | single {c : Char} {d : Nat} (digit : digitValue? c = some d) : DigitRun [c] [d]
  | next {c : Char} {d : Nat} {cs : List Char} {ds : List Nat} (digit : digitValue? c = some d)
      (rest : DigitRun cs ds) : DigitRun (c :: cs) (d :: ds)
  | apart {c : Char} {d : Nat} {cs : List Char} {ds : List Nat} (digit : digitValue? c = some d)
      (rest : DigitRun cs ds) : DigitRun (c :: '_' :: cs) (d :: ds)

/-- What may stand behind a digit of a run. -/
inductive FollowsDigit : List Char → List Nat → Prop
  | nothing : FollowsDigit [] []
  | next {cs : List Char} {ds : List Nat} (rest : DigitRun cs ds) : FollowsDigit cs ds
  | apart {cs : List Char} {ds : List Nat} (rest : DigitRun cs ds) : FollowsDigit ('_' :: cs) ds

theorem digitRun_cons_iff {ds' : List Nat} :
    DigitRun (c :: cs) ds' ↔
      ∃ d ds, digitValue? c = some d ∧ FollowsDigit cs ds ∧ d :: ds = ds' := by
  constructor
  · intro h
    cases h with
    | single digit => exact ⟨_, _, digit, .nothing, rfl⟩
    | next digit rest => exact ⟨_, _, digit, .next rest, rfl⟩
    | apart digit rest => exact ⟨_, _, digit, .apart rest, rfl⟩
  · rintro ⟨d, ds, digit, follows, rfl⟩
    cases follows with
    | nothing => exact .single digit
    | next rest => exact .next digit rest
    | apart rest => exact .apart digit rest

theorem DigitRun.ne_nil (h : DigitRun cs ds) : cs ≠ [] := by
  cases h <;> exact List.cons_ne_nil _ _

/-- How the readers of digits go on from one digit to the others. -/
theorem bind_digitValue?_eq_some_iff {others : Option (List Nat)} {ds' : List Nat} :
    (do let d ← digitValue? c; return d :: (← others)) = some ds' ↔
      ∃ d ds, digitValue? c = some d ∧ others = some ds ∧ d :: ds = ds' := by
  simp [Option.bind_eq_some_iff]

theorem followsDigit_underscore_iff : FollowsDigit ('_' :: cs) ds ↔ DigitRun cs ds := by
  refine ⟨fun h => ?_, .apart⟩
  cases h with
  | next rest =>
    obtain ⟨d, ds, digit, -⟩ := digitRun_cons_iff.1 rest
    have hunderscore : digitValue? '_' = none := by decide
    cases hunderscore.symm.trans digit
  | apart rest => exact rest

theorem moreDigits_eq_some_iff : moreDigits cs = some ds ↔ FollowsDigit cs ds := by
  fun_induction moreDigits cs generalizing ds with
  | case1 =>
    refine ⟨fun h => ?_, fun h => ?_⟩
    · cases h
      exact .nothing
    · cases h with
      | nothing => rfl
      | next rest => exact absurd rfl rest.ne_nil
  | case2 c cs ih =>
    rw [bind_digitValue?_eq_some_iff, followsDigit_underscore_iff, digitRun_cons_iff]
    simp only [ih]
  | case3 c cs hother ih =>
    rw [bind_digitValue?_eq_some_iff]
    simp only [ih]
    rw [← digitRun_cons_iff]
    refine ⟨.next, fun h => ?_⟩
    cases h with
    | next rest => exact rest
    | apart rest =>
      -- An underscore with something behind it has been dealt with before.
      obtain ⟨c', cs', rfl⟩ := List.exists_cons_of_ne_nil rest.ne_nil
      exact (hother c' cs' rfl rfl).elim

theorem digits?_eq_some_iff : digits? cs = some ds ↔ DigitRun cs ds := by
  cases cs with
  | nil => exact ⟨nofun, fun h => absurd rfl h.ne_nil⟩
  | cons c cs =>
    rw [digits?, bind_digitValue?_eq_some_iff, digitRun_cons_iff]
    simp only [moreDigits_eq_some_iff]

/-- The value of digits in base ten, which `Nat.ofDigits` counts from the last one on. -/
theorem ofDigits_eq (ds : List Nat) : ofDigits ds = Nat.ofDigits 10 ds.reverse := by
  rw [Nat.ofDigits_eq_foldr, List.foldr_reverse, ofDigits]
  congr
  funext n d
  rw [Nat.cast_id, Nat.mul_comm, Nat.add_comm]

theorem natural?_eq_some_iff {n : Nat} :
    natural? cs = some n ↔
      ∃ ds, DigitRun cs ds ∧ ds.length ≤ 4300 ∧ Nat.ofDigits 10 ds.reverse = n := by
  simp [natural?, Option.bind_eq_some_iff, digits?_eq_some_iff, ofDigits_eq, digitLimit]

/-! ### Signs -/

/-- A sign or none, and the factor that it stands for. -/
inductive SignSpells : List Char → Int → Prop
  | none : SignSpells [] 1
  | plus : SignSpells ['+'] 1
  | minus : SignSpells ['-'] (-1)

theorem DigitRun.exists_cons (h : DigitRun cs ds) :
    ∃ c rest, cs = c :: rest ∧ (digitValue? c).isSome := by
  obtain ⟨c, rest, rfl⟩ := List.exists_cons_of_ne_nil h.ne_nil
  obtain ⟨d, -, digit, -⟩ := digitRun_cons_iff.1 h
  exact ⟨c, rest, rfl, Option.isSome_of_mem digit⟩

/-- However a text begins, it is read as a sign or none and the digits behind it. -/
theorem exists_sign (cs : List Char) :
    ∃ sign run factor, cs = sign ++ run ∧ SignSpells sign factor ∧
      signed? cs = (natural? run).map fun n : Nat => factor * n := by
  unfold signed?
  split
  · exact ⟨['+'], _, 1, rfl, .plus, by simp only [Int.one_mul]; rfl⟩
  · exact ⟨['-'], _, -1, rfl, .minus, by simp⟩
  · exact ⟨[], _, 1, rfl, .none, by simp only [Int.one_mul]; rfl⟩

theorem SignSpells.signed?_append {sign : List Char} {factor : Int}
    (hsign : SignSpells sign factor) (hrun : DigitRun run ds) :
    signed? (sign ++ run) = (natural? run).map fun n : Nat => factor * n := by
  cases hsign with
  | plus =>
    simp only [Int.one_mul]
    rfl
  | minus => simp [signed?]
  | none =>
    -- The run begins with a digit, so its first character is not taken for a sign.
    obtain ⟨c, rest, rfl, hdigit⟩ := hrun.exists_cons
    have hsigns : (digitValue? '+').isSome = false ∧ (digitValue? '-').isSome = false := by decide
    have hplus : c ≠ '+' := fun heq => Bool.false_ne_true (hsigns.1.symm.trans (heq ▸ hdigit))
    have hminus : c ≠ '-' := fun heq => Bool.false_ne_true (hsigns.2.symm.trans (heq ▸ hdigit))
    rw [List.nil_append, signed?.eq_3 _ (fun _ heq => hplus (List.cons.inj heq).1)
      fun _ heq => hminus (List.cons.inj heq).1]
    simp only [Int.one_mul]
    rfl

theorem signed?_eq_some_iff {value : Int} :
    signed? cs = some value ↔
      ∃ sign run factor ds, cs = sign ++ run ∧ SignSpells sign factor ∧ DigitRun run ds ∧
        ds.length ≤ 4300 ∧ factor * (Nat.ofDigits 10 ds.reverse : Nat) = value := by
  constructor
  · intro h
    obtain ⟨sign, run, factor, hcs, hsign, hsigned⟩ := exists_sign cs
    rw [hsigned, Option.map_eq_some_iff] at h
    obtain ⟨n, hn, rfl⟩ := h
    obtain ⟨ds, hrun, hlength, rfl⟩ := natural?_eq_some_iff.1 hn
    exact ⟨sign, run, factor, ds, hcs, hsign, hrun, hlength, rfl⟩
  · rintro ⟨sign, run, factor, ds, rfl, hsign, hrun, hlength, rfl⟩
    rw [hsign.signed?_append hrun, natural?_eq_some_iff.2 ⟨ds, hrun, hlength, rfl⟩]
    rfl

/-! ### Blanks around -/

theorem isNumeralBlank_eq_false_of_digit (h : (digitValue? c).isSome) :
    isNumeralBlank c = false := by
  have htable : ∀ z ∈ zeros, ∀ k < 10, isBlank (Char.ofNat (z + k)) = false := by decide +kernel
  rw [digitValue?, Option.isSome_map, List.find?_isSome] at h
  obtain ⟨z, hz, hrange⟩ := h
  simp only [Bool.and_eq_true, decide_eq_true_eq] at hrange
  have hblank := htable z hz (c.toNat - z) (by omega)
  rw [Nat.add_sub_cancel' hrange.1, Char.ofNat_toNat] at hblank
  rw [isNumeralBlank, hblank, Bool.false_and]

/-- A run ends with a digit, as it begins with one. -/
theorem DigitRun.isSome_of_mem_getLast? (h : DigitRun cs ds) :
    ∀ c ∈ cs.getLast?, (digitValue? c).isSome := by
  induction h with
  | single digit =>
    rintro c ⟨⟩
    exact Option.isSome_of_mem digit
  | next _ rest ih =>
    rw [List.getLast?_cons_of_ne_nil rest.ne_nil]
    exact ih
  | apart _ rest ih =>
    rw [List.getLast?_cons_of_ne_nil (List.cons_ne_nil _ _),
      List.getLast?_cons_of_ne_nil rest.ne_nil]
    exact ih

theorem SignSpells.isTrimmed_append {sign : List Char} {factor : Int}
    (hsign : SignSpells sign factor) (hrun : DigitRun run ds) :
    IsTrimmed isNumeralBlank (sign ++ run) := by
  constructor
  · intro c hc
    cases hsign with
    | none =>
      obtain ⟨first, rest, rfl, hdigit⟩ := hrun.exists_cons
      cases hc
      exact isNumeralBlank_eq_false_of_digit hdigit
    | plus | minus =>
      cases hc
      rfl
  · intro c hc
    rw [List.getLast?_append_of_ne_nil _ hrun.ne_nil] at hc
    exact isNumeralBlank_eq_false_of_digit (hrun.isSome_of_mem_getLast? c hc)

/-- The text is an integer: blanks, a sign or none, at most 4300 digits, and blanks. -/
inductive Denotes (s : String) : Int → Prop
  | numeral {before sign run after : List Char} {factor : Int} {ds : List Nat}
      (text : s.toList = before ++ (sign ++ run) ++ after)
      (before_blank : ∀ c ∈ before, isNumeralBlank c = true)
      (sign_spells : SignSpells sign factor)
      (digits : DigitRun run ds)
      (few : ds.length ≤ 4300)
      (after_blank : ∀ c ∈ after, isNumeralBlank c = true) :
    Denotes s (factor * (Nat.ofDigits 10 ds.reverse : Nat))

theorem integer?_eq_some_iff {s : String} {value : Int} :
    integer? s = some value ↔ Denotes s value := by
  rw [integer?, signed?_eq_some_iff]
  constructor
  · rintro ⟨sign, run, factor, ds, htrim, hsign, hrun, hlength, rfl⟩
    obtain ⟨before, after, hs, hbefore, hafter⟩ := exists_append_trimBy isNumeralBlank s.toList
    rw [htrim] at hs
    exact .numeral hs.symm hbefore hsign hrun hlength hafter
  · rintro ⟨htext, hbefore, hsign, hrun, hlength, hafter⟩
    rw [htext, (hsign.isTrimmed_append hrun).trimBy_append_append hbefore hafter]
    exact ⟨_, _, _, _, rfl, hsign, hrun, hlength, rfl⟩

end Text

namespace Settings

open Text

variable {raw : String} {port : Int}

theorem readPort_eq_ok_iff :
    readPort raw = .ok port ↔ Text.integer? raw = some port ∧ 1 ≤ port ∧ port ≤ 65535 := by
  unfold readPort
  cases Text.integer? raw with
  | none => simp
  | some value =>
    rw [Option.some.injEq]
    dsimp only
    split
    · next hrange =>
      rw [Except.ok.injEq]
      exact ⟨fun h => ⟨h, by omega⟩, And.left⟩
    · next hrange =>
      constructor
      · nofun
      · rintro ⟨rfl, hport⟩
        exact absurd ⟨by omega, by omega⟩ hrange

theorem readPort_eq_error_iff {e : SettingsError} :
    readPort raw = .error e ↔
      (∃ port, Text.integer? raw = some port ∧ ¬ (1 ≤ port ∧ port ≤ 65535) ∧
        .portOutOfRange port = e) ∨
        Text.integer? raw = none ∧ .invalidPort raw = e := by
  unfold readPort
  cases Text.integer? raw with
  | none => simp
  | some value =>
    have hrange : (0 < value ∧ value < 65536) ↔ (1 ≤ value ∧ value ≤ 65535) := by omega
    simp only [hrange]
    split
    · next hport => simp [hport]
    · next hport => simp [-not_and, hport]

/-- A text is read as a port if it denotes one, it is refused with the integer that it denotes if
that is no port, and if it denotes no integer at all it is refused as it was written. -/
theorem readPort_cases (raw : String) :
    (∀ port, readPort raw = .ok port ↔ Denotes raw port ∧ 1 ≤ port ∧ port ≤ 65535) ∧
      (∀ e, readPort raw = .error e ↔
        (∃ port, Denotes raw port ∧ ¬ (1 ≤ port ∧ port ≤ 65535) ∧ .portOutOfRange port = e) ∨
          (¬ ∃ port, Denotes raw port) ∧ .invalidPort raw = e) ∧
      (∀ port, (SettingsError.portOutOfRange port).message = s!"Port out of range: {port}") ∧
      (SettingsError.invalidPort raw).message = s!"Invalid port: {quoted raw}" := by
  have hnone : integer? raw = none ↔ ¬ ∃ port, Denotes raw port := by
    simp only [Option.eq_none_iff_forall_ne_some, Ne, integer?_eq_some_iff, not_exists]
  refine ⟨fun port => ?_, fun e => ?_, fun port => rfl, rfl⟩
  · rw [readPort_eq_ok_iff, integer?_eq_some_iff]
  · rw [readPort_eq_error_iff, hnone]
    simp only [integer?_eq_some_iff]

/-- Leading zeros, an underscore, digits of two scripts and blanks on either side. -/
example : readPort "\u3000+00_8\u0660\n" = .ok 80 := by decide +kernel

end Settings

end RubyOutline
