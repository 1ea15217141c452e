import RubyOutline.CommandLine.Interface

/-!
Operands of a command line. Flags and their values are never taken for the operand, so the
operand is made of arguments as they were given; and the first argument of the program that
is no flag takes everything behind it, to be read once more by the command that it names.
-/

namespace RubyOutline

/-- A computation goes through if its first part does, and what follows on that. -/
theorem bind_eq_ok {ε α β : Type} {x : Except ε α} {f : α → Except ε β} {b : β} :
    x >>= f = .ok b ↔ ∃ a, x = .ok a ∧ f a = .ok b := by
  cases x <;> simp [bind, Except.bind]

namespace CommandLine

variable {flags : List Flag}

theorem sortArguments_cons_eq_ok_iff {arg : String} (harg : arg ≠ "--") {args : List String}
    {tokens : List (String × Token)} :
    sortArguments flags (arg :: args) = .ok tokens ↔
      ∃ token rest, sortArgument flags arg = .ok token ∧ sortArguments flags args = .ok rest ∧
        (arg, token) :: rest = tokens := by
  rw [sortArguments, if_neg harg]
  simp only [bind_eq_ok, pure, Except.pure, Except.ok.injEq]
  constructor
  · rintro ⟨token, htoken, rest, hrest, heq⟩
    exact ⟨token, rest, htoken, hrest, heq⟩
  · rintro ⟨token, rest, htoken, hrest, heq⟩
    exact ⟨token, htoken, rest, hrest, heq⟩

theorem map_fst_sortArguments {args : List String} {tokens : List (String × Token)}
    (h : sortArguments flags args = .ok tokens) : tokens.map (·.1) = args := by
  induction args generalizing tokens with
  | nil =>
    cases h
    rfl
  | cons arg args ih =>
    by_cases harg : arg = "--"
    · rw [sortArguments, if_pos harg] at h
      cases h
      simp [Function.comp_def]
    · obtain ⟨token, rest, -, hrest, rfl⟩ := (sortArguments_cons_eq_ok_iff harg).1 h
      rw [List.map_cons, ih hrest]

theorem operand_ne_act (flag : Flag) (arguments : List String) :
    Step.operand arguments ≠ flag.act := by
  unfold Flag.act
  split <;> nofun

/-- A run of short flags only acts; it gives no values and takes no operand. -/
theorem eq_act_of_mem_shortRun {flag : Flag} {cs : List Char} {run : List Step}
    (h : shortRun flags flag cs = .ok run) {step : Step} (hstep : step ∈ run) :
    ∃ next : Flag, step = next.act := by
  induction cs generalizing flag run with
  | nil =>
    cases h
    exact ⟨flag, List.mem_singleton.mp hstep⟩
  | cons c cs ih =>
    rw [shortRun] at h
    split at h
    · cases h
    · next next _ =>
      cases hrun : shortRun flags next cs with
      | error e => simp [hrun, Except.map] at h
      | ok rest =>
        simp only [hrun, Except.map, Except.ok.injEq] at h
        rw [← h] at hstep
        obtain hstep | hstep := List.mem_cons.mp hstep
        · exact ⟨flag, hstep⟩
        · exact ih hrun hstep

theorem operand_notMem_attachedSteps (flag : Flag) (attached : Attached)
    (arguments : List String) : Step.operand arguments ∉ attachedSteps flags flag attached := by
  rw [attachedSteps]
  split
  · simp
  · split
    · split
      · next h =>
        intro hmem
        obtain ⟨next, hnext⟩ := eq_act_of_mem_shortRun h hmem
        exact operand_ne_act next arguments hnext
      · simp
    · simp

/-- An operand is made of arguments of the command line. -/
theorem mem_of_operand_mem_readTokens {expected : Expectation}
    {tokens : List (String × Token)} {arguments : List String}
    (h : Step.operand arguments ∈ readTokens flags expected tokens) {a : String}
    (ha : a ∈ arguments) : a ∈ tokens.map (·.1) := by
  fun_induction readTokens flags expected tokens
  case case6 | case10 =>
    obtain rfl := Step.operand.inj (List.mem_singleton.mp h)
    exact ha
  case case7 arg tokens _ _ ih =>
    obtain h | h := List.mem_cons.mp h
    · obtain rfl := Step.operand.inj h
      exact List.mem_cons.mpr (.inl (List.mem_singleton.mp ha))
    · exact List.mem_cons_of_mem _ (ih h)
  case case14 flag attached tokens _ ih =>
    obtain h | h := List.mem_append.mp h
    · exact absurd h (operand_notMem_attachedSteps flag attached arguments)
    · exact List.mem_cons_of_mem _ (ih h)
  case case16 flag tokens _ _ ih =>
    obtain h | h := List.mem_cons.mp h
    · exact absurd h (operand_ne_act flag arguments)
    · exact List.mem_cons_of_mem _ (ih h)
  -- In all other cases the operand is in what is read from the tokens behind the first.
  all_goals simp_all

theorem mem_of_operand_mem_steps {operand : Option Arity} {args arguments : List String}
    (h : Step.operand arguments ∈ steps flags operand args) {a : String} (ha : a ∈ arguments) :
    a ∈ args := by
  rw [steps] at h
  split at h
  · simp at h
  · next tokens hsorted =>
    rw [← map_fst_sortArguments hsorted]
    exact mem_of_operand_mem_readTokens h ha

theorem sortArgument_undashed {arg : String} (h : arg.toList.head? ≠ some '-') :
    sortArgument flags arg = .ok .operand := by
  unfold sortArgument
  split
  · next heq => simp [heq] at h
  · rfl

theorem ne_dashes_of_undashed {arg : String} (h : arg.toList.head? ≠ some '-') : arg ≠ "--" := by
  rintro rfl
  exact h rfl

/-- A command and its arguments are all taken together, unless the arguments cannot be
sorted. -/
theorem steps_command {name : String} (hname : name.toList.head? ≠ some '-')
    (args : List String) :
    steps mainInterface.flags mainInterface.operand (name :: args) =
      match sortArguments mainInterface.flags args with
      | .ok _ => [.operand (name :: args)]
      | .error complaint => [.complain complaint] := by
  rw [steps, sortArguments, if_neg (ne_dashes_of_undashed hname), sortArgument_undashed hname]
  cases hsorted : sortArguments mainInterface.flags args with
  | error complaint => rfl
  | ok tokens =>
    have hargs := map_fst_sortArguments hsorted
    dsimp only
    rw [← hargs]
    rfl

end CommandLine

end RubyOutline
