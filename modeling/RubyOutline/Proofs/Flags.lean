import RubyOutline.CommandLine.Invocation
import RubyOutline.Proofs.Operands

/-!
Flags that are given values. However a flag is spelled, the step that it makes names a flag of the
interface, and one that takes a value; and of several values for one flag the last one remains. A
value that is joined to the full name of a flag is always found.
-/

namespace RubyOutline.CommandLine

variable {flags : List Flag}

/-! ### Which flags are given values -/

theorem mem_of_mem_spellings {name : String} {flag : Flag} (h : (name, flag) ∈ spellings flags) :
    flag ∈ flags := by
  simp only [spellings, List.mem_flatMap, List.mem_map, Prod.mk.injEq] at h
  obtain ⟨flag', hflag, -, -, -, rfl⟩ := h
  exact hflag

theorem mem_of_flag?_eq_some {name : String} {flag : Flag} (h : flag? flags name = some flag) :
    flag ∈ flags := by
  obtain ⟨⟨spelling, flag'⟩, hfind, rfl⟩ := Option.map_eq_some_iff.1 h
  exact mem_of_mem_spellings (List.mem_of_find?_eq_some hfind)

theorem mem_of_mem_candidates {cs : List Char} {name : String} {flag : Flag}
    {attached : Option Attached} (h : (name, flag, attached) ∈ candidates flags cs) :
    flag ∈ flags := by
  unfold candidates at h
  split at h
  · obtain ⟨⟨spelling, flag'⟩, hmem, heq⟩ := List.mem_map.1 h
    cases heq
    exact mem_of_mem_spellings ((List.mem_filter.1 hmem).1)
  · obtain ⟨⟨spelling, flag'⟩, hmem, heq⟩ := List.mem_map.1 h
    cases heq
    exact mem_of_mem_spellings ((List.mem_filter.1 hmem).1)
  · cases h

theorem mem_of_sortArgument {arg : String} {flag : Flag} {attached : Option Attached}
    (h : sortArgument flags arg = .ok (.flag flag attached)) : flag ∈ flags := by
  unfold sortArgument at h
  split at h
  · unfold sortDashed at h
    dsimp only at h
    split at h
    · next hflag =>
      cases h
      exact mem_of_flag?_eq_some hflag
    · split at h
      · next hflag =>
        cases h
        obtain ⟨-, -, hflag⟩ := Option.bind_eq_some_iff.1 hflag
        exact mem_of_flag?_eq_some hflag
      · split at h
        · next hcandidates =>
          cases h
          exact mem_of_mem_candidates (hcandidates ▸ List.mem_singleton_self _)
        · split at h <;> cases h
        · cases h
  · cases h

def Token.flag? : Token → Option Flag
  | .flag f _ => some f
  | _ => none

/-- The flags among sorted arguments. -/
def flagsOf (tokens : List (String × Token)) : List Flag := tokens.filterMap (·.2.flag?)

theorem flagsOf_subset {args : List String} {tokens : List (String × Token)}
    (h : sortArguments flags args = .ok tokens) : flagsOf tokens ⊆ flags := by
  induction args generalizing tokens with
  | nil =>
    cases h
    exact List.nil_subset _
  | cons arg args ih =>
    by_cases harg : arg = "--"
    · rw [sortArguments, if_pos harg] at h
      cases h
      intro flag hmem
      simp [flagsOf, Token.flag?] at hmem
    · obtain ⟨token, rest, htoken, hrest, rfl⟩ := (sortArguments_cons_eq_ok_iff harg).1 h
      cases token with
      | flag flag attached => exact List.cons_subset.2 ⟨mem_of_sortArgument htoken, ih hrest⟩
      | operand | dashes | unknown =>
        intro flag hmem
        exact ih hrest hmem

theorem value_ne_act (flag' : Flag) (flag : Flag) (value : Option String) :
    Step.value flag value ≠ flag'.act := by
  unfold Flag.act
  split <;> nofun

theorem eq_of_value_mem_attachedSteps {flag flag' : Flag} {attached : Attached}
    {value : Option String} (h : .value flag' value ∈ attachedSteps flags flag attached) :
    flag' = flag ∧ flag.role = .value := by
  rw [attachedSteps] at h
  split at h
  · next hrole =>
    cases List.mem_singleton.1 h
    exact ⟨rfl, hrole⟩
  · split at h
    · split at h
      · next hrun =>
        obtain ⟨next, hnext⟩ := eq_act_of_mem_shortRun hrun h
        exact absurd hnext (value_ne_act next flag' value)
      · simp at h
    · simp at h

/-- A value is given to a flag that is found among the arguments, or that waits for one. -/
theorem mem_of_value_mem_readTokens {expected : Expectation} {tokens : List (String × Token)}
    {flag : Flag} {value : Option String}
    (h : .value flag value ∈ readTokens flags expected tokens) :
    (∃ due, expected = .value flag due) ∨ flag.role = .value ∧ flag ∈ flagsOf tokens := by
  fun_induction readTokens flags expected tokens
  case case3 flag' due arg tokens ih =>
    obtain hfirst | hrest := List.mem_cons.1 h
    · cases hfirst
      exact .inl ⟨due, rfl⟩
    · obtain ⟨_, ⟨⟩⟩ | hmem := ih hrest
      exact .inr hmem
  case case14 flag' attached tokens _ ih =>
    obtain hfirst | hrest := List.mem_append.1 h
    · obtain ⟨rfl, hrole⟩ := eq_of_value_mem_attachedSteps hfirst
      exact .inr ⟨hrole, List.mem_cons_self⟩
    · obtain ⟨_, ⟨⟩⟩ | ⟨hrole, hmem⟩ := ih hrest
      exact .inr ⟨hrole, List.mem_cons_of_mem _ hmem⟩
  case case15 flag' tokens _ hrole ih =>
    obtain ⟨_, ⟨⟩⟩ | ⟨hrole, hmem⟩ := ih h
    · exact .inr ⟨hrole, List.mem_cons_self⟩
    · exact .inr ⟨hrole, List.mem_cons_of_mem _ hmem⟩
  case case16 flag' tokens _ hrole ih =>
    obtain hfirst | hrest := List.mem_cons.1 h
    · exact absurd hfirst (value_ne_act flag' flag value)
    · obtain ⟨_, ⟨⟩⟩ | ⟨hrole, hmem⟩ := ih hrest
      exact .inr ⟨hrole, List.mem_cons_of_mem _ hmem⟩
  -- In all other cases no flag is met, and the value is in what is read behind the first token.
  all_goals simp_all [flagsOf, Token.flag?]

theorem mem_of_value_mem_steps {operand : Option Arity} {args : List String} {flag : Flag}
    {value : Option String} (h : .value flag value ∈ steps flags operand args) :
    flag ∈ flags ∧ flag.role = .value := by
  rw [steps] at h
  split at h
  · simp at h
  · next tokens hsorted =>
    obtain ⟨_, ⟨⟩⟩ | ⟨hrole, hmem⟩ := mem_of_value_mem_readTokens h
    exact ⟨flagsOf_subset hsorted hmem, hrole⟩

/-! ### The last value of a flag -/

/-- The value that a step gives to a flag. -/
def Step.valueOf? (flag : Flag) : Step → Option (Option String)
  | .value given v => if given = flag then some v else none
  | _ => none

/-- The last value that steps give to a flag, `none` if they give it none at all. -/
def lastValue? (flag : Flag) (steps : List Step) : Option (Option String) :=
  (steps.filterMap (·.valueOf? flag)).getLast?

@[simp] theorem lastValue?_nil (flag : Flag) : lastValue? flag [] = none := rfl

theorem lastValue?_cons (flag : Flag) (step : Step) (steps : List Step) :
    lastValue? flag (step :: steps) = (lastValue? flag steps).or (step.valueOf? flag) := by
  rw [lastValue?, List.filterMap_cons]
  cases step.valueOf? flag with
  | none => rw [Option.or_none, lastValue?]
  | some value =>
    dsimp only
    rw [List.getLast?_cons, lastValue?]
    cases (steps.filterMap (·.valueOf? flag)).getLast? <;> rfl

/-! ### Taking steps -/

/-- The argument of a step that nothing takes. -/
def Step.leftover? : Step → Option String
  | .leftover argument => some argument
  | _ => none

/-- Where an interface passes over what nothing takes, steps are taken from left to right, and
what nothing takes is kept in order. -/
theorem takeSteps_eq_foldlM {α : Type} {take : α → Step → Except Halt α}
    (hleftover : ∀ a argument, take a (.leftover argument) = .ok a) (a : α)
    (leftovers : List String) (steps : List Step) :
    takeSteps take (a, leftovers) steps =
      (steps.foldlM take a).map fun a' => (a', leftovers ++ steps.filterMap Step.leftover?) := by
  induction steps generalizing a leftovers with
  | nil => simp [takeSteps, pure, Except.pure, Except.map]
  | cons step steps ih =>
    rw [List.foldlM_cons]
    cases step with
    | leftover argument =>
      rw [takeSteps, ih, hleftover]
      simp [bind, Except.bind, Step.leftover?]
    | _ =>
      rw [takeSteps]
      · cases htake : take a _ with
        | error halt => rfl
        | ok a' => exact ih a' leftovers
      · nofun

theorem takeSteps_eq_ok_iff {α : Type} {take : α → Step → Except Halt α}
    (hleftover : ∀ a argument, take a (.leftover argument) = .ok a) {a a' : α}
    {leftovers leftovers' : List String} {steps : List Step} :
    takeSteps take (a, leftovers) steps = .ok (a', leftovers') ↔
      steps.foldlM take a = .ok a' ∧ leftovers ++ steps.filterMap Step.leftover? = leftovers' := by
  rw [takeSteps_eq_foldlM hleftover]
  cases steps.foldlM take a <;> simp [Except.map]

/-- What holds in the end held from the start, or one of the steps has brought it about. -/
theorem exists_step_of_foldlM {α : Type} {take : α → Step → Except Halt α} {holds : α → Prop}
    {brings : Step → Prop}
    (hstep : ∀ a step a', take a step = .ok a' → holds a' → holds a ∨ brings step) {a a' : α}
    {steps : List Step} (h : steps.foldlM take a = .ok a') (ha' : holds a') :
    holds a ∨ ∃ step ∈ steps, brings step := by
  induction steps generalizing a with
  | nil =>
    cases h
    exact .inl ha'
  | cons step steps ih =>
    rw [List.foldlM_cons, bind_eq_ok] at h
    obtain ⟨b, htake, hsteps⟩ := h
    obtain hb | ⟨later, hmem, hlater⟩ := ih hsteps
    · exact (hstep a step b htake hb).imp_right fun hbrings =>
        ⟨step, List.mem_cons_self, hbrings⟩
    · exact .inr ⟨later, List.mem_cons_of_mem _ hmem, hlater⟩

/-! ### Joined values -/

theorem splitEquals_append {name : List Char} (hname : '=' ∉ name) (value : List Char) :
    splitEquals (name ++ '=' :: value) =
      (name, some ⟨!isLong (name ++ '=' :: value), value⟩) := by
  have hall : ∀ c ∈ name, decide (c ≠ '=') = true := fun c hc => by
    simpa using ne_of_mem_of_not_mem hc hname
  rw [splitEquals, List.dropWhile_append_of_pos hall, List.takeWhile_append_of_pos hall]
  simp

/-- No flag is spelled with an equals sign. -/
def NoEquals (flags : List Flag) : Prop := ∀ spelling ∈ spellings flags, '=' ∉ spelling.1.toList

instance : Decidable (NoEquals flags) := inferInstanceAs (Decidable (∀ _ ∈ _, _))

theorem flag?_eq_none (hflags : NoEquals flags) {name : String} (hname : '=' ∈ name.toList) :
    flag? flags name = none := by
  rw [flag?, Option.map_eq_none_iff, List.find?_eq_none]
  rintro spelling hmem heq
  rw [beq_iff_eq] at heq
  exact hflags spelling hmem (heq ▸ hname)

/-- The spellings that go on from a beginning. -/
def completions (flags : List Flag) (beginning : String) : List (String × Flag) :=
  (spellings flags).filter fun spelling => beginning.toList.isPrefixOf spelling.1.toList

/-- A long spelling without an equals sign. -/
structure IsLongName (name : String) : Prop where
  long : isLong name.toList = true
  equals_notMem : '=' ∉ name.toList

namespace IsLongName

variable {name : String}

theorem exists_eq (h : IsLongName name) : ∃ rest, name.toList = '-' :: '-' :: rest := by
  have hlong := h.long
  unfold isLong at hlong
  split at hlong
  · next rest hrest => exact ⟨rest, hrest⟩
  · cases hlong

theorem splitEquals_joined (h : IsLongName name) (value : List Char) :
    splitEquals (name.toList ++ '=' :: value) = (name.toList, some ⟨false, value⟩) := by
  obtain ⟨rest, hrest⟩ := h.exists_eq
  rw [splitEquals_append h.equals_notMem, hrest]
  rfl

theorem candidates_joined (h : IsLongName name) (value : List Char) :
    candidates flags (name.toList ++ '=' :: value) = (completions flags name).map
      fun (spelling, flag) => (spelling, flag, some ⟨false, value⟩) := by
  have hsplit := h.splitEquals_joined value
  obtain ⟨rest, hrest⟩ := h.exists_eq
  rw [completions]
  rw [hrest] at hsplit ⊢
  simp only [List.cons_append] at hsplit ⊢
  rw [candidates, hsplit]

/-- A value that is joined to a long flag goes to the flag of that name, or to the only one whose
name goes on from what is written. -/
theorem sortArgument_joined (h : IsLongName name) (hflags : NoEquals flags) (value : String) :
    sortArgument flags (name ++ "=" ++ value) =
      match flag? flags name with
      | some flag => .ok (.flag flag (some ⟨false, value.toList⟩))
      | none => match completions flags name with
        | [(_, flag)] => .ok (.flag flag (some ⟨false, value.toList⟩))
        | [] => if (name ++ "=" ++ value).toList.contains ' ' then .ok .operand else .ok .unknown
        | several => .error (.ambiguous (name ++ "=" ++ value) (several.map (·.1))) := by
  obtain ⟨rest, hrest⟩ := h.exists_eq
  have harg : (name ++ "=" ++ value).toList = name.toList ++ '=' :: value.toList := by simp
  have hdashed : sortArgument flags (name ++ "=" ++ value) =
      sortDashed flags (name ++ "=" ++ value) := by
    rw [sortArgument, harg, hrest]
    rfl
  have hwhole : flag? flags (name ++ "=" ++ value) = none := flag?_eq_none hflags (by simp)
  have hnegative : isNegativeNumber (name.toList ++ '=' :: value.toList) = false := by
    rw [hrest]
    rfl
  rw [hdashed, sortDashed, hwhole, harg]
  simp only [h.splitEquals_joined, h.candidates_joined, Option.bind_some, String.ofList_toList,
    hnegative, Bool.false_or]
  cases flag? flags name with
  | some flag => rfl
  | none =>
    cases completions flags name with
    | nil => rfl
    | cons first more => cases more <;> simp

end IsLongName

end RubyOutline.CommandLine
