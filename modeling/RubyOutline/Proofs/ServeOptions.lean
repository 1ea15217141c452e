import RubyOutline.Proofs.Flags

/-!
The options of the command that serves. They come from the settings, and every flag that is given a
value replaces its option, so the last value of each flag decides. What the options are once the
steps have been taken is told here from the steps alone.
-/

namespace RubyOutline.CommandLine

def Step.isSwitch : Step → Bool
  | .switch _ => true
  | _ => false

/-- The steps of the command that serves. -/
abbrev serveSteps (args : List String) : List Step :=
  steps serveInterface.flags serveInterface.operand args

namespace ServeOptions

/-- The options that the settings ask for. -/
def ofSettings (settings : Settings) : ServeOptions :=
  ⟨some settings.host, some settings.port, false⟩

/-- The options once steps have been taken, told without taking them. -/
def after (options : ServeOptions) (steps : List Step) : ServeOptions where
  host := (lastValue? hostFlag steps).getD options.host
  port := ((lastValue? portFlag steps).map (·.bind Text.integer?)).getD options.port
  reload := options.reload || steps.any Step.isSwitch

theorem after_singleton (options : ServeOptions) (step : Step) :
    options.after [step] =
      ⟨(step.valueOf? hostFlag).getD options.host,
        ((step.valueOf? portFlag).map (·.bind Text.integer?)).getD options.port,
        options.reload || step.isSwitch⟩ := by
  simp [after, lastValue?_cons]

@[simp] theorem after_nil (options : ServeOptions) : options.after [] = options := by
  simp [after]

theorem after_cons (options : ServeOptions) (step : Step) (steps : List Step) :
    options.after (step :: steps) = (options.after [step]).after steps := by
  simp only [after, lastValue?_cons, lastValue?_nil, Option.none_or, List.any_cons, List.any_nil,
    Bool.or_false, Bool.or_assoc, mk.injEq, and_true]
  constructor
  · cases lastValue? hostFlag steps <;> rfl
  · cases lastValue? portFlag steps <;> rfl

end ServeOptions

@[simp] theorem portFlag_ne_hostFlag : portFlag ≠ hostFlag := by decide

@[simp] theorem hostFlag_ne_portFlag : hostFlag ≠ portFlag := portFlag_ne_hostFlag.symm

theorem eq_host_or_port {args : List String} {flag : Flag} {value : Option String}
    (h : .value flag value ∈ serveSteps args) : flag = hostFlag ∨ flag = portFlag := by
  obtain ⟨hmem, hrole⟩ := mem_of_value_mem_steps h
  simp only [serveInterface, List.mem_cons, List.not_mem_nil, or_false] at hmem
  obtain rfl | rfl | rfl | rfl := hmem
  · cases hrole
  · exact .inl rfl
  · exact .inr rfl
  · cases hrole

theorem takeServe_eq_ok {options options' : ServeOptions} {step : Step}
    (hflag : ∀ flag value, step = .value flag value → flag = hostFlag ∨ flag = portFlag)
    (h : takeCommon serveInterface serveHelp takeServe options step = .ok options') :
    options' = options.after [step] := by
  rw [ServeOptions.after_singleton]
  cases step with
  | help | complain => cases h
  | switch | operand | leftover =>
    cases h
    simp [Step.valueOf?, Step.isSwitch]
  | value flag value =>
    -- Any flag but the host is taken for the port, so it matters that there is no third one.
    obtain rfl | rfl := hflag flag value rfl
    · cases h
      simp [Step.valueOf?, Step.isSwitch]
    · cases value with
      | none =>
        cases h
        simp [Step.valueOf?, Step.isSwitch]
      | some text =>
        simp only [takeCommon, takeServe, portFlag_ne_hostFlag, if_false] at h
        cases hvalue : Text.integer? text with
        | none => simp [hvalue] at h
        | some port =>
          simp only [hvalue, Except.ok.injEq] at h
          rw [← h]
          simp [Step.valueOf?, Step.isSwitch, hvalue]

theorem foldlM_takeServe {options options' : ServeOptions} {steps : List Step}
    (hflags : ∀ flag value, .value flag value ∈ steps → flag = hostFlag ∨ flag = portFlag)
    (h : steps.foldlM (takeCommon serveInterface serveHelp takeServe) options = .ok options') :
    options' = options.after steps := by
  induction steps generalizing options with
  | nil =>
    cases h
    exact (ServeOptions.after_nil _).symm
  | cons step steps ih =>
    rw [List.foldlM_cons, bind_eq_ok] at h
    obtain ⟨next, htake, hsteps⟩ := h
    have hnext := takeServe_eq_ok (fun flag value hstep =>
      hflags flag value (hstep ▸ List.mem_cons_self)) htake
    rw [ServeOptions.after_cons, ← hnext]
    exact ih (fun flag value hmem => hflags flag value (List.mem_cons_of_mem _ hmem)) hsteps

theorem options_of_readServe {settings : Settings} {args rest : List String}
    {options : ServeOptions} (h : readServe settings args = .ok (.serve options, rest)) :
    options = (ServeOptions.ofSettings settings).after (serveSteps args) := by
  simp only [readServe] at h
  split at h
  · cases h
  · next options' leftovers hsteps =>
    cases h
    obtain ⟨hfold, -⟩ := (takeSteps_eq_ok_iff fun _ _ => rfl).1 hsteps
    exact foldlM_takeServe (fun flag value => eq_host_or_port) hfold

end RubyOutline.CommandLine
