import RubyOutline.Json.Reader
import RubyOutline.Proofs.Json.Numerals

/-!
Documents are read back. A printer lays out a container with its items on lines of their own
or all on one line, and an empty one always on one; a reader passes over the blanks, and takes
one token after the other. So from a state that waits for a value it gets to the one where
the value is complete, whatever the value and whatever is behind it, by induction over the
document. Documents with fractions are left out, whose numbers are kept as they are written.
-/

namespace RubyOutline.Json

open Text (CodePoint WideText)

/-! ### Tokens -/

/-- More tokens follow. -/
def Lexeme.goesOn : Lexeme → Bool
  | brokenQuote _ | unreadable | finish => false
  | _ => true

section Marks

variable (t : WideText)

theorem begins_openArray : Begins (.scalar '[' :: t) .openArray t := ⟨_, _, rfl, rfl, rfl⟩

theorem begins_closeArray : Begins (.scalar ']' :: t) .closeArray t := ⟨_, _, rfl, rfl, rfl⟩

theorem begins_openObject : Begins (.scalar '\x7b' :: t) .openObject t := ⟨_, _, rfl, rfl, rfl⟩

theorem begins_closeObject : Begins (.scalar '\x7d' :: t) .closeObject t := ⟨_, _, rfl, rfl, rfl⟩

theorem begins_colon : Begins (.scalar ':' :: t) .colon t := ⟨_, _, rfl, rfl, rfl⟩

theorem begins_comma : Begins (.scalar ',' :: t) .comma t := ⟨_, _, rfl, rfl, rfl⟩

theorem begins_null : Begins (Text.wide "null" ++ t) (.atom .null) t := ⟨_, _, rfl, rfl, rfl⟩

theorem begins_true : Begins (Text.wide "true" ++ t) (.atom (.bool true)) t :=
  ⟨_, _, rfl, rfl, rfl⟩

theorem begins_false : Begins (Text.wide "false" ++ t) (.atom (.bool false)) t :=
  ⟨_, _, rfl, rfl, rfl⟩

end Marks

theorem tokens_of_dropWhile_eq_nil {t : WideText} (h : t.dropWhile isBlank = []) :
    tokens t = [⟨.finish, []⟩] := by
  rw [tokens]
  split
  · rfl
  · next h' => simp [h] at h'

theorem tokens_of_dropWhile_eq_cons {t rest : WideText} {c : CodePoint}
    (h : t.dropWhile isBlank = c :: rest) :
    tokens t = ⟨(readLexeme c rest).1, c :: rest⟩ ::
      match (readLexeme c rest).1 with
      | .brokenQuote _ | .unreadable => []
      | _ => tokens (readLexeme c rest).2 := by
  rw [tokens]
  split
  · next h' => simp [h] at h'
  · next h' =>
    obtain ⟨rfl, rfl⟩ := List.cons.inj (h.symm.trans h')
    rfl

theorem tokens_of_begins {s t : WideText} {lexeme : Lexeme} (h : Begins s lexeme t)
    (hl : lexeme.goesOn = true) : tokens s = ⟨lexeme, s⟩ :: tokens t := by
  obtain ⟨c, rest, rfl, hc, hread⟩ := h
  have hdrop : (c :: rest).dropWhile isBlank = c :: rest := by simp [hc]
  rw [tokens_of_dropWhile_eq_cons hdrop, hread]
  cases lexeme with
  | brokenQuote | unreadable | finish => simp [Lexeme.goesOn] at hl
  | _ => rfl

theorem tokens_append_of_blank {b : WideText} (hb : ∀ c ∈ b, isBlank c = true) (t : WideText) :
    tokens (b ++ t) = tokens t := by
  have hdrop : (b ++ t).dropWhile isBlank = t.dropWhile isBlank :=
    List.dropWhile_append_of_pos hb
  cases h : t.dropWhile isBlank with
  | nil => rw [tokens_of_dropWhile_eq_nil h, tokens_of_dropWhile_eq_nil (hdrop.trans h)]
  | cons c rest =>
    rw [tokens_of_dropWhile_eq_cons h, tokens_of_dropWhile_eq_cons (hdrop.trans h)]

/-! ### Steps of a reader -/

/-- Reads on from a state, without limits. -/
def readFrom (state : State) (t : WideText) : Except ReadError (Json WideText) :=
  readTokens Limits.none state (tokens t)

theorem readFrom_step {s t : WideText} {lexeme : Lexeme} {state next : State}
    (h : Begins s lexeme t) (hl : lexeme.goesOn = true)
    (hs : step Limits.none state ⟨lexeme, s⟩ = .ok next) : readFrom state s = readFrom next t := by
  rw [readFrom, tokens_of_begins h hl, readTokens, hs, readFrom]
  intro v rest _ htoken
  obtain rfl : lexeme = .finish := congrArg Token.lexeme htoken
  cases hl

theorem readFrom_blank {b : WideText} (hb : ∀ c ∈ b, isBlank c = true) (state : State)
    (t : WideText) : readFrom state (b ++ t) = readFrom state t := by
  rw [readFrom, tokens_append_of_blank hb, readFrom]

/-- Any token but the end of an array is taken for the beginning of a value. -/
def Awaits (state : State) (stack : List Frame) : Prop :=
  ∀ token : Token, token.lexeme ≠ .closeArray →
    step Limits.none state token = stepValue Limits.none stack token

theorem awaits_value (stack : List Frame) : Awaits (.value stack) stack := fun _ _ => rfl

theorem awaits_firstItem (stack : List Frame) :
    Awaits (.firstItem stack) (.array [] :: stack) := by
  rintro ⟨lexeme, rest⟩ h
  cases lexeme with
  | closeArray => exact absurd rfl h
  | _ => rfl

/-- A text is taken for the name of a member. -/
def AwaitsName (state : State) (stack : List Frame) (before : List (WideText × Json WideText)) :
    Prop :=
  ∀ text rest, step Limits.none state ⟨.quoted text, rest⟩ = .ok (.colon stack before text)

theorem awaitsName_name (stack : List Frame) (before : List (WideText × Json WideText)) :
    AwaitsName (.name stack before) stack before := fun _ _ => rfl

theorem awaitsName_firstName (stack : List Frame) : AwaitsName (.firstName stack) stack [] :=
  fun _ _ => rfl

/-! ### What a printer writes -/

mutual

/-- No number of the document has a fraction. -/
def isWhole {σ : Type} : Json σ → Bool
  | real _ => false
  | array items => areWhole items
  | object members => membersWhole members
  | _ => true

def areWhole {σ : Type} : List (Json σ) → Bool
  | [] => true
  | v :: vs => v.isWhole && areWhole vs

def membersWhole {σ : Type} : List (σ × Json σ) → Bool
  | [] => true
  | (_, v) :: rest => v.isWhole && membersWhole rest

end

variable (style : Style)

theorem Style.mem_newLine {depth : Nat} {c : Char} (h : c ∈ style.newLine depth) :
    c = '\n' ∨ c = ' ' := by
  rw [newLine] at h
  split at h
  · obtain rfl | h := List.mem_cons.mp h
    · exact .inl rfl
    · exact .inr (List.mem_replicate.mp h).2
  · cases h

theorem isBlank_of_mem_newLine {depth : Nat} {c : CodePoint}
    (h : c ∈ scalars (style.newLine depth)) : isBlank c = true := by
  obtain ⟨d, hd, rfl⟩ := List.mem_map.mp h
  obtain rfl | rfl := style.mem_newLine hd <;> rfl

theorem readFrom_newLine (depth : Nat) (state : State) (t : WideText) :
    readFrom state (scalars (style.newLine depth) ++ t) = readFrom state t :=
  readFrom_blank (fun _ => isBlank_of_mem_newLine style) state t

theorem endsNumber_newLine (depth : Nat) {t : WideText} (ht : EndsNumber t) :
    EndsNumber (scalars (style.newLine depth) ++ t) := by
  intro c hc
  rw [List.head?_append, Option.mem_def, Option.or_eq_some_iff] at hc
  obtain hc | ⟨-, hc⟩ := hc
  · obtain ⟨d, hd, rfl⟩ := List.mem_map.mp (List.mem_of_mem_head? hc)
    obtain rfl | rfl := style.mem_newLine hd <;> decide
  · exact ht c hc

theorem endsNumber_closing {c : Char} (hc : c = ',' ∨ c = ']' ∨ c = '\x7d') (t : WideText) :
    EndsNumber (.scalar c :: t) := by
  rintro _ ⟨⟩
  obtain rfl | rfl | rfl := hc <;> decide

theorem endsNumber_itemChars (depth : Nat) (vs : List (Json String)) {t : WideText}
    (ht : EndsNumber t) : EndsNumber (scalars (itemChars style depth vs) ++ t) := by
  cases vs with
  | nil => exact ht
  | cons v vs =>
    rintro c ⟨⟩
    decide

theorem endsNumber_memberChars (depth : Nat) (members : List (String × Json String))
    {t : WideText} (ht : EndsNumber t) :
    EndsNumber (scalars (memberChars style depth members) ++ t) := by
  cases members with
  | nil => exact ht
  | cons member members =>
    rintro c ⟨⟩
    decide

theorem begins_text (s : String) (t : WideText) :
    Begins (scalars (style.text s) ++ t) (.quoted (Text.wide s)) t := by
  refine ⟨.scalar '"', scalars (s.toList.flatMap style.char) ++ .scalar '"' :: t, ?_, rfl, ?_⟩
  · simp [Style.text]
  · simp only [readLexeme, readQuoted_flatMap_char]
    rfl

/-- The name of a member and what stands between it and its value. -/
theorem readFrom_memberName {state : State} {stack : List Frame}
    {before : List (WideText × Json WideText)} (hstate : AwaitsName state stack before)
    (name : String) (t : WideText) :
    readFrom state (scalars (style.text name) ++ (scalars style.colon ++ t)) =
      readFrom (.value (.object before (Text.wide name) :: stack)) t := by
  rw [readFrom_step (begins_text style name _) rfl (hstate _ _)]
  rw [Style.colon]
  split
  · have hblank : ∀ c ∈ scalars [' '], isBlank c = true := by decide
    exact (readFrom_step (begins_colon _) rfl rfl).trans (readFrom_blank hblank _ t)
  · exact readFrom_step (begins_colon _) rfl rfl

/-! ### Reading a document back -/

mutual

theorem readFrom_chars (depth : Nat) (v : Json String) (hv : v.isWhole = true) {state : State}
    {stack : List Frame} (hstate : Awaits state stack) {t : WideText} (ht : EndsNumber t) :
    readFrom state (scalars (chars style depth v) ++ t) =
      readFrom (.complete stack (v.map Text.wide)) t := by
  match v with
  | null => exact readFrom_step (begins_null t) rfl (hstate _ nofun)
  | bool true => exact readFrom_step (begins_true t) rfl (hstate _ nofun)
  | bool false => exact readFrom_step (begins_false t) rfl (hstate _ nofun)
  | int n => exact readFrom_step (begins_integerText n ht) rfl (hstate _ nofun)
  | real literal => simp [isWhole] at hv
  | string s => exact readFrom_step (begins_text style s t) rfl (hstate _ nofun)
  | array [] =>
    calc readFrom state (.scalar '[' :: .scalar ']' :: t)
      _ = readFrom (.firstItem stack) (.scalar ']' :: t) :=
        readFrom_step (begins_openArray _) rfl (hstate _ nofun)
      _ = readFrom (.complete stack (.array [])) t :=
        readFrom_step (begins_closeArray t) rfl rfl
  | array (v :: vs) =>
    simp only [isWhole, areWhole, Bool.and_eq_true] at hv
    simp only [chars, scalars_append, scalars_cons, scalars_nil, List.append_assoc,
      List.cons_append, List.nil_append]
    have hrest := endsNumber_newLine style depth (endsNumber_closing (c := ']') (by decide) t)
    calc readFrom state _
      _ = readFrom (.firstItem stack) _ :=
        readFrom_step (begins_openArray _) rfl (hstate _ nofun)
      _ = readFrom (.firstItem stack) _ := readFrom_newLine style _ _ _
      _ = readFrom (.complete (.array [] :: stack) (v.map Text.wide)) _ :=
        readFrom_chars (depth + 1) v hv.1 (awaits_firstItem stack)
          (endsNumber_itemChars style _ vs hrest)
      _ = readFrom (.complete stack (.array (v.map Text.wide :: mapItems Text.wide vs))) t :=
        readFrom_itemChars (depth + 1) depth vs hv.2 t
  | object [] =>
    calc readFrom state (.scalar '\x7b' :: .scalar '\x7d' :: t)
      _ = readFrom (.firstName stack) (.scalar '\x7d' :: t) :=
        readFrom_step (begins_openObject _) rfl (hstate _ nofun)
      _ = readFrom (.complete stack (.object [])) t :=
        readFrom_step (begins_closeObject t) rfl rfl
  | object ((name, v) :: rest) =>
    simp only [isWhole, membersWhole, Bool.and_eq_true] at hv
    simp only [chars, scalars_append, scalars_cons, scalars_nil, List.append_assoc,
      List.cons_append, List.nil_append]
    have hrest := endsNumber_newLine style depth (endsNumber_closing (c := '\x7d') (by decide) t)
    calc readFrom state _
      _ = readFrom (.firstName stack) _ :=
        readFrom_step (begins_openObject _) rfl (hstate _ nofun)
      _ = readFrom (.firstName stack) _ := readFrom_newLine style _ _ _
      _ = readFrom (.value (.object [] (Text.wide name) :: stack)) _ :=
        readFrom_memberName style (awaitsName_firstName stack) name _
      _ = readFrom (.complete (.object [] (Text.wide name) :: stack) (v.map Text.wide)) _ :=
        readFrom_chars (depth + 1) v hv.1 (awaits_value _)
          (endsNumber_memberChars style _ rest hrest)
      _ = readFrom (.complete stack (.object
          ((Text.wide name, v.map Text.wide) :: mapMembers Text.wide rest))) t :=
        readFrom_memberChars (depth + 1) depth rest hv.2 t

theorem readFrom_itemChars (depth closing : Nat) (vs : List (Json String))
    (hvs : areWhole vs = true) {stack : List Frame} {before : List (Json WideText)}
    {value : Json WideText} (t : WideText) :
    readFrom (.complete (.array before :: stack) value)
        (scalars (itemChars style depth vs) ++
          (scalars (style.newLine closing) ++ .scalar ']' :: t)) =
      readFrom (.complete stack (.array (before.reverse ++ value :: mapItems Text.wide vs))) t := by
  match vs with
  | [] =>
    have hend : (before.reverse ++ [value]) = (value :: before).reverse := by simp
    rw [mapItems, hend]
    calc readFrom (.complete (.array before :: stack) value) _
      _ = readFrom (.complete (.array before :: stack) value) (.scalar ']' :: t) :=
        readFrom_newLine style _ _ _
      _ = _ := readFrom_step (begins_closeArray t) rfl rfl
  | v :: vs =>
    simp only [areWhole, Bool.and_eq_true] at hvs
    simp only [itemChars, scalars_append, scalars_cons, List.append_assoc, List.cons_append]
    have hend := endsNumber_newLine style closing (endsNumber_closing (c := ']') (by decide) t)
    have hitems : before.reverse ++ value :: mapItems Text.wide (v :: vs) =
        (value :: before).reverse ++ v.map Text.wide :: mapItems Text.wide vs := by
      simp [mapItems]
    rw [hitems]
    calc readFrom (.complete (.array before :: stack) value) _
      _ = readFrom (.value (.array (value :: before) :: stack)) _ :=
        readFrom_step (begins_comma _) rfl rfl
      _ = readFrom (.value (.array (value :: before) :: stack)) _ := readFrom_newLine style _ _ _
      _ = readFrom (.complete (.array (value :: before) :: stack) (v.map Text.wide)) _ :=
        readFrom_chars depth v hvs.1 (awaits_value _) (endsNumber_itemChars style _ vs hend)
      _ = _ := readFrom_itemChars depth closing vs hvs.2 t

theorem readFrom_memberChars (depth closing : Nat) (members : List (String × Json String))
    (hmembers : membersWhole members = true) {stack : List Frame}
    {before : List (WideText × Json WideText)} {name : WideText} {value : Json WideText}
    (t : WideText) :
    readFrom (.complete (.object before name :: stack) value)
        (scalars (memberChars style depth members) ++
          (scalars (style.newLine closing) ++ .scalar '\x7d' :: t)) =
      readFrom (.complete stack
        (.object (before.reverse ++ (name, value) :: mapMembers Text.wide members))) t := by
  match members with
  | [] =>
    have hend : (before.reverse ++ [(name, value)]) = ((name, value) :: before).reverse := by simp
    rw [mapMembers, hend]
    calc readFrom (.complete (.object before name :: stack) value) _
      _ = readFrom (.complete (.object before name :: stack) value) (.scalar '\x7d' :: t) :=
        readFrom_newLine style _ _ _
      _ = _ := readFrom_step (begins_closeObject t) rfl rfl
  | (next, v) :: rest =>
    simp only [membersWhole, Bool.and_eq_true] at hmembers
    simp only [memberChars, scalars_append, scalars_cons, List.append_assoc, List.cons_append]
    have hend := endsNumber_newLine style closing (endsNumber_closing (c := '\x7d') (by decide) t)
    have hitems : before.reverse ++ (name, value) :: mapMembers Text.wide ((next, v) :: rest) =
        ((name, value) :: before).reverse ++
          (Text.wide next, v.map Text.wide) :: mapMembers Text.wide rest := by
      simp [mapMembers]
    rw [hitems]
    calc readFrom (.complete (.object before name :: stack) value) _
      _ = readFrom (.name stack ((name, value) :: before)) _ :=
        readFrom_step (begins_comma _) rfl rfl
      _ = readFrom (.name stack ((name, value) :: before)) _ := readFrom_newLine style _ _ _
      _ = readFrom (.value (.object ((name, value) :: before) (Text.wide next) :: stack)) _ :=
        readFrom_memberName style (awaitsName_name stack _) next _
      _ = readFrom (.complete (.object ((name, value) :: before) (Text.wide next) :: stack)
          (v.map Text.wide)) _ :=
        readFrom_chars depth v hmembers.1 (awaits_value _)
          (endsNumber_memberChars style _ rest hend)
      _ = _ := readFrom_memberChars depth closing rest hmembers.2 t

end

/-- What is written is read back. -/
theorem read_render (v : Json String) (hv : v.isWhole = true) :
    read Limits.none (Text.wide (render style v)) = .ok (v.map Text.wide) := by
  have hend : EndsNumber [] := nofun
  have h := readFrom_chars style 0 v hv (awaits_value []) hend
  rw [List.append_nil] at h
  have htext : Text.wide (render style v) = scalars (chars style 0 v) := by
    rw [Text.wide, render, String.toList_ofList, scalars]
  calc read Limits.none (Text.wide (render style v))
    _ = readFrom (.value []) (scalars (chars style 0 v)) := by rw [htext, read, readFrom]
    _ = readFrom (.complete [] (v.map Text.wide)) [] := h
    _ = .ok (v.map Text.wide) := by
      rw [readFrom, tokens_of_dropWhile_eq_nil rfl, readTokens]

end RubyOutline.Json
