import Mathlib.Data.List.TakeWhile
import RubyOutline.Proofs.Flags

/-!
Flags as they are written in full. A value stands in an argument of its own behind the name of the
flag, or it is joined to the name by an equals sign; either way it comes to one step, and what
follows on the command line is read as it would be without it.
-/

namespace RubyOutline.CommandLine

variable {flags : List Flag} {name arg : String} {flag : Flag} {args : List String}
  {token : Token} {sorted : List (String × Token)} {operand : Option Arity}

/-- A value as it is written. In an argument of its own it begins with no dash; joined to the name
it may be anything but two dashes, which do not count as a value. -/
inductive Given where
  | apart (value : String) (undashed : value.toList.head? ≠ some '-')
  | joined (value : String) (ne_dashes : value ≠ "--")

namespace Given

def value : Given → String
  | apart value _ | joined value _ => value

/-- The arguments that give the value to a flag. -/
def arguments (name : String) : Given → List String
  | apart value _ => [name, value]
  | joined value _ => [name ++ "=" ++ value]

/-- The arguments once they are sorted. -/
def tokens (name : String) (flag : Flag) : Given → List (String × Token)
  | apart value _ => [(name, .flag flag none), (value, .operand)]
  | joined value _ => [(name ++ "=" ++ value, .flag flag (some ⟨false, value.toList⟩))]

end Given

/-- A long name that some flags have, and the flag that it is the name of. -/
structure Names (flags : List Flag) (name : String) (flag : Flag) : Prop
    extends IsLongName name where
  ne_dashes : name ≠ "--"
  flag?_eq_some : flag? flags name = some flag

/-- A long name that is the name of none of some flags, nor the beginning of one. -/
structure NamesNone (flags : List Flag) (name : String) : Prop extends IsLongName name where
  ne_dashes : name ≠ "--"
  flag?_eq_none : flag? flags name = none
  completions_eq_nil : completions flags name = []

/-- No argument is ambiguous, so that the command line is read to its end. -/
def Sorts (flags : List Flag) (args : List String) : Prop :=
  ∃ tokens, sortArguments flags args = .ok tokens

/-! ### Sorting one argument -/

theorem joined_ne_dashes (name value : String) : name ++ "=" ++ value ≠ "--" := by
  intro h
  have hmem : '=' ∈ (name ++ "=" ++ value).toList := by simp
  rw [h] at hmem
  revert hmem
  decide

theorem IsLongName.sortArgument_eq (h : IsLongName name) :
    sortArgument flags name = sortDashed flags name := by
  obtain ⟨rest, hrest⟩ := h.exists_eq
  rw [sortArgument, hrest]
  rfl

theorem IsLongName.splitEquals_eq (h : IsLongName name) :
    splitEquals name.toList = (name.toList, none) := by
  have hnone : name.toList.dropWhile (· ≠ '=') = [] := by
    rw [List.dropWhile_eq_nil_iff]
    intro c hc
    simpa using ne_of_mem_of_not_mem hc h.equals_notMem
  rw [splitEquals, hnone]

theorem Names.sortArgument_eq (h : Names flags name flag) :
    sortArgument flags name = .ok (.flag flag none) := by
  rw [h.toIsLongName.sortArgument_eq, sortDashed, h.flag?_eq_some]

theorem Names.sortArgument_joined (h : Names flags name flag) (hflags : NoEquals flags)
    (value : String) :
    sortArgument flags (name ++ "=" ++ value) = .ok (.flag flag (some ⟨false, value.toList⟩)) := by
  rw [h.toIsLongName.sortArgument_joined hflags, h.flag?_eq_some]

theorem NamesNone.exists_sortArgument (h : NamesNone flags name) :
    ∃ token, sortArgument flags name = .ok token := by
  have hcandidates : candidates flags name.toList = [] := by
    have hsplit := h.splitEquals_eq
    have hnone := h.completions_eq_nil
    obtain ⟨rest, hrest⟩ := h.exists_eq
    rw [completions] at hnone
    rw [hrest] at hsplit hnone ⊢
    rw [candidates, hsplit]
    simp only [hnone, List.map_nil]
  rw [h.toIsLongName.sortArgument_eq, sortDashed, h.flag?_eq_none]
  simp only [h.splitEquals_eq, hcandidates, Option.bind_none]
  split <;> exact ⟨_, rfl⟩

theorem NamesNone.exists_sortArgument_joined (h : NamesNone flags name) (hflags : NoEquals flags)
    (value : String) : ∃ token, sortArgument flags (name ++ "=" ++ value) = .ok token := by
  rw [h.toIsLongName.sortArgument_joined hflags, h.flag?_eq_none, h.completions_eq_nil]
  dsimp only
  split <;> exact ⟨_, rfl⟩

/-! ### Sorting a command line -/

theorem sorts_nil : Sorts flags [] := ⟨[], rfl⟩

theorem sortArguments_cons_eq_ok (harg : arg ≠ "--") (htoken : sortArgument flags arg = .ok token)
    (hargs : sortArguments flags args = .ok sorted) :
    sortArguments flags (arg :: args) = .ok ((arg, token) :: sorted) :=
  (sortArguments_cons_eq_ok_iff harg).2 ⟨token, sorted, htoken, hargs, rfl⟩

theorem Sorts.cons (hargs : Sorts flags args) (harg : arg ≠ "--")
    (htoken : ∃ token, sortArgument flags arg = .ok token) : Sorts flags (arg :: args) := by
  obtain ⟨sorted, hsorted⟩ := hargs
  obtain ⟨token, htoken⟩ := htoken
  exact ⟨_, sortArguments_cons_eq_ok harg htoken hsorted⟩

theorem Given.sortArguments_eq (h : Names flags name flag) (hflags : NoEquals flags)
    (hargs : sortArguments flags args = .ok sorted) (given : Given) :
    sortArguments flags (given.arguments name ++ args) = .ok (given.tokens name flag ++ sorted) := by
  cases given with
  | apart value undashed =>
    exact sortArguments_cons_eq_ok h.ne_dashes h.sortArgument_eq
      (sortArguments_cons_eq_ok (ne_dashes_of_undashed undashed) (sortArgument_undashed undashed)
        hargs)
  | joined value _ =>
    exact sortArguments_cons_eq_ok (joined_ne_dashes name value)
      (h.sortArgument_joined hflags value) hargs

theorem Sorts.given (hargs : Sorts flags args) (h : Names flags name flag)
    (hflags : NoEquals flags) (given : Given) : Sorts flags (given.arguments name ++ args) := by
  obtain ⟨sorted, hsorted⟩ := hargs
  exact ⟨_, given.sortArguments_eq h hflags hsorted⟩

/-- Flags that some interface does not have do not keep it from reading on. -/
theorem Sorts.givenNone (hargs : Sorts flags args) (h : NamesNone flags name)
    (hflags : NoEquals flags) (given : Given) : Sorts flags (given.arguments name ++ args) := by
  cases given with
  | apart value undashed =>
    exact (hargs.cons (ne_dashes_of_undashed undashed) ⟨_, sortArgument_undashed undashed⟩).cons
      h.ne_dashes h.exists_sortArgument
  | joined value _ =>
    exact hargs.cons (joined_ne_dashes name value) (h.exists_sortArgument_joined hflags value)

/-! ### Reading a command line -/

theorem steps_eq_readTokens (h : sortArguments flags args = .ok sorted) :
    steps flags operand args = readTokens flags (.operand operand) sorted := by
  rw [steps, h]

/-- However a value is written, it is given to the flag, and the reading goes on behind it. -/
theorem Given.readTokens_eq (hrole : flag.role = .value) (given : Given) :
    readTokens flags (.operand operand) (given.tokens name flag ++ sorted) =
      .value flag (some given.value) :: readTokens flags (.operand operand) sorted := by
  cases given with
  | apart value _ => simp [Given.tokens, readTokens, hrole, Given.value, Expectation.due]
  | joined value ne_dashes =>
    have hvalue : value.toList ≠ ['-', '-'] := fun h =>
      ne_dashes (String.toList_inj.1 h)
    simp [Given.tokens, readTokens, hrole, Given.value, Expectation.due, attachedSteps,
      joinedValue, hvalue]

theorem Given.steps_eq (h : Names flags name flag) (hrole : flag.role = .value)
    (hflags : NoEquals flags) (hargs : Sorts flags args) (given : Given) :
    steps flags operand (given.arguments name ++ args) =
      .value flag (some given.value) :: steps flags operand args := by
  obtain ⟨sorted, hsorted⟩ := hargs
  rw [steps_eq_readTokens (given.sortArguments_eq h hflags hsorted), given.readTokens_eq hrole,
    steps_eq_readTokens hsorted]

theorem steps_switch (h : Names flags name flag) (hrole : flag.role = .switch)
    (hargs : Sorts flags args) :
    steps flags operand (name :: args) = .switch flag :: steps flags operand args := by
  obtain ⟨sorted, hsorted⟩ := hargs
  rw [steps_eq_readTokens (sortArguments_cons_eq_ok h.ne_dashes h.sortArgument_eq hsorted),
    steps_eq_readTokens hsorted]
  simp [readTokens, hrole, Flag.act, Expectation.due]

end RubyOutline.CommandLine
