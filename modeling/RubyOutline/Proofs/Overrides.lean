import RubyOutline.CommandLine.Program
import RubyOutline.Proofs.Environment
import RubyOutline.Proofs.ServeOptions
import RubyOutline.Proofs.WrittenFlags

/-!
What the command line and the environment decide between them when the service is started. Every
flag that is given a value, however it is written, wins over the variable of the environment, which
wins over the default; of several values for one flag the last one wins. Flags of different names
do not touch each other, so their order does not matter.
-/

namespace RubyOutline.CommandLine

/-! ### Command lines that start the service -/

/-- A log level as it is given to the program. -/
structure LevelArgument where
  given : Given
  level : LogLevel
  reads : Settings.readLogLevel given.value = .ok level

/-- A flag of the command that serves as it is written, with a value that can be read. -/
inductive ServeArgument where
  | host (given : Given)
  | port (given : Given) (value : Int) (reads : Text.integer? given.value = some value)
  | reload

namespace LevelArgument

def arguments (a : LevelArgument) : List String := a.given.arguments "--log-level"

def step (a : LevelArgument) : Step := .value logLevelFlag (some a.given.value)

end LevelArgument

namespace ServeArgument

def flag : ServeArgument → Flag
  | host _ => hostFlag
  | port _ _ _ => portFlag
  | reload => reloadFlag

def name : ServeArgument → String
  | host _ => "--host"
  | port _ _ _ => "--port"
  | reload => "--reload"

def arguments (a : ServeArgument) : List String :=
  match a with
  | host given | port given _ _ => given.arguments a.name
  | reload => [a.name]

/-- The step that the arguments come to. -/
def step : ServeArgument → Step
  | host given => .value hostFlag (some given.value)
  | port given _ _ => .value portFlag (some given.value)
  | reload => .switch reloadFlag

def host? : ServeArgument → Option String
  | host given => some given.value
  | _ => none

def port? : ServeArgument → Option Int
  | port _ value _ => some value
  | _ => none

end ServeArgument

/-- The command line that starts the service, with the log levels in front of the command. -/
def commandLine (levels : List LevelArgument) (options : List ServeArgument) : List String :=
  levels.flatMap LevelArgument.arguments ++ "serve" :: options.flatMap ServeArgument.arguments

/-- The options that the arguments leave, told from the last of each kind. -/
def ServeOptions.overriddenBy (settings : Settings) (options : List ServeArgument) :
    ServeOptions where
  host := some ((options.filterMap ServeArgument.host?).getLast?.getD settings.host)
  port := some ((options.filterMap ServeArgument.port?).getLast?.getD settings.port)
  reload := options.any (·.step.isSwitch)

/-! ### The arguments of the command -/

theorem noEquals_serve : NoEquals serveInterface.flags := by decide

theorem noEquals_main : NoEquals mainInterface.flags := by decide

theorem names_logLevel : Names mainInterface.flags "--log-level" logLevelFlag :=
  ⟨⟨by decide, by decide⟩, by decide, by decide⟩

namespace ServeArgument

theorem names (a : ServeArgument) : Names serveInterface.flags a.name a.flag := by
  cases a <;> dsimp only [name, flag] <;> exact ⟨⟨by decide, by decide⟩, by decide, by decide⟩

theorem namesNone (a : ServeArgument) : NamesNone mainInterface.flags a.name := by
  cases a <;> dsimp only [name] <;>
    exact ⟨⟨by decide, by decide⟩, by decide, by decide, by decide⟩

/-- The program leaves the flags of the command to the command. -/
theorem sorts_main (options : List ServeArgument) :
    Sorts mainInterface.flags (options.flatMap arguments) := by
  induction options with
  | nil => exact sorts_nil
  | cons a options ih =>
    have hname := a.namesNone
    rw [List.flatMap_cons]
    cases a with
    | host given | port given => exact ih.givenNone hname noEquals_main given
    | reload => exact ih.cons hname.ne_dashes hname.exists_sortArgument

theorem sorts_serve (options : List ServeArgument) :
    Sorts serveInterface.flags (options.flatMap arguments) := by
  induction options with
  | nil => exact sorts_nil
  | cons a options ih =>
    have hname := a.names
    rw [List.flatMap_cons]
    cases a with
    | host given | port given => exact ih.given hname noEquals_serve given
    | reload => exact ih.cons hname.ne_dashes ⟨_, hname.sortArgument_eq⟩

theorem serveSteps_eq (options : List ServeArgument) :
    serveSteps (options.flatMap arguments) = options.map step := by
  induction options with
  | nil => rfl
  | cons a options ih =>
    have hname := a.names
    have hsorts := sorts_serve options
    rw [List.flatMap_cons, List.map_cons, ← ih]
    cases a with
    | host given | port given => exact given.steps_eq hname rfl noEquals_serve hsorts
    | reload => exact steps_switch hname rfl hsorts

theorem takeCommon_step (options : ServeOptions) (a : ServeArgument) :
    takeCommon serveInterface serveHelp takeServe options a.step =
      .ok (options.after [a.step]) := by
  rw [ServeOptions.after_singleton]
  cases a with
  | host given => simp [step, takeCommon, takeServe, Step.valueOf?, Step.isSwitch]
  | port given value reads =>
    simp [step, takeCommon, takeServe, Step.valueOf?, Step.isSwitch, reads]
  | reload => simp [step, takeCommon, takeServe, Step.valueOf?, Step.isSwitch]

theorem foldlM_steps (o : ServeOptions) (options : List ServeArgument) :
    (options.map step).foldlM (takeCommon serveInterface serveHelp takeServe) o =
      .ok (o.after (options.map step)) := by
  induction options generalizing o with
  | nil => exact congrArg _ o.after_nil.symm
  | cons a options ih =>
    rw [List.map_cons, List.foldlM_cons, takeCommon_step]
    exact (ih _).trans (congrArg _ (o.after_cons _ _).symm)

theorem filterMap_leftover_steps (options : List ServeArgument) :
    (options.map step).filterMap Step.leftover? = [] := by
  rw [List.filterMap_map, List.filterMap_eq_nil_iff]
  intro a _
  cases a <;> rfl

/-! ### The options of the command -/

theorem lastValue?_host (options : List ServeArgument) :
    lastValue? hostFlag (options.map step) = (options.filterMap host?).getLast?.map some := by
  rw [lastValue?, List.filterMap_map, ← List.getLast?_map, List.map_filterMap]
  congr 2
  funext a
  cases a <;> simp [step, host?, Step.valueOf?]

theorem map_lastValue?_port (options : List ServeArgument) :
    (lastValue? portFlag (options.map step)).map (·.bind Text.integer?) =
      (options.filterMap port?).getLast?.map some := by
  rw [lastValue?, List.filterMap_map, ← List.getLast?_map, ← List.getLast?_map, List.map_filterMap,
    List.map_filterMap]
  congr 2
  funext a
  cases a with
  | port given value reads => simp [step, port?, Step.valueOf?, reads]
  | host | reload => simp [step, port?, Step.valueOf?]

theorem after_steps (settings : Settings) (options : List ServeArgument) :
    (ServeOptions.ofSettings settings).after (options.map step) =
      .overriddenBy settings options := by
  rw [ServeOptions.after, lastValue?_host, map_lastValue?_port, ServeOptions.overriddenBy]
  simp only [ServeOptions.ofSettings, ServeOptions.mk.injEq]
  refine ⟨?_, ?_, ?_⟩
  · cases (options.filterMap host?).getLast? <;> rfl
  · cases (options.filterMap port?).getLast? <;> rfl
  · rw [Bool.false_or, List.any_map]
    rfl

theorem readServe_eq (settings : Settings) (options : List ServeArgument) :
    readServe settings (options.flatMap arguments) =
      .ok (.serve (.overriddenBy settings options), []) := by
  have htaken : takeSteps (takeCommon serveInterface serveHelp takeServe)
      (.ofSettings settings, []) (serveSteps (options.flatMap arguments)) =
        .ok (.overriddenBy settings options, []) := by
    rw [serveSteps_eq, takeSteps_eq_ok_iff fun _ _ => rfl, filterMap_leftover_steps]
    exact ⟨(foldlM_steps _ options).trans (congrArg _ (after_steps settings options)), rfl⟩
  rw [ServeOptions.ofSettings, serveSteps] at htaken
  simp only [readServe, htaken]

end ServeArgument

/-! ### The arguments of the program -/

theorem commandLine_cons (a : LevelArgument) (levels : List LevelArgument)
    (options : List ServeArgument) :
    commandLine (a :: levels) options =
      a.given.arguments "--log-level" ++ commandLine levels options := by
  rw [commandLine, List.flatMap_cons, List.append_assoc]
  rfl

theorem sorts_main (levels : List LevelArgument) (options : List ServeArgument) :
    Sorts mainInterface.flags (commandLine levels options) := by
  have hname : "serve".toList.head? ≠ some '-' := by decide
  induction levels with
  | nil =>
    exact (ServeArgument.sorts_main options).cons (ne_dashes_of_undashed hname)
      ⟨_, sortArgument_undashed hname⟩
  | cons a levels ih =>
    rw [commandLine_cons]
    exact ih.given names_logLevel noEquals_main a.given

theorem steps_commandLine (levels : List LevelArgument) (options : List ServeArgument) :
    steps mainInterface.flags mainInterface.operand (commandLine levels options) =
      levels.map LevelArgument.step ++
        [.operand ("serve" :: options.flatMap ServeArgument.arguments)] := by
  induction levels with
  | nil =>
    have hname : "serve".toList.head? ≠ some '-' := by decide
    obtain ⟨sorted, hsorted⟩ := ServeArgument.sorts_main options
    have hsteps := steps_command hname (options.flatMap ServeArgument.arguments)
    rw [hsorted] at hsteps
    exact hsteps
  | cons a levels ih =>
    rw [List.map_cons, List.cons_append, ← ih, commandLine_cons]
    exact a.given.steps_eq names_logLevel rfl noEquals_main (sorts_main levels options)

/-- The level that the arguments leave, told from the last one. -/
def overriddenLevel (settings : Settings) (levels : List LevelArgument) : LogLevel :=
  (levels.map (·.level)).getLast?.getD settings.logLevel

theorem takeSteps_levels (settings : Settings) (level : LogLevel) (levels : List LevelArgument)
    (steps : List Step) :
    takeSteps (takeMain settings) (⟨some level, none⟩, []) (levels.map LevelArgument.step ++ steps) =
      takeSteps (takeMain settings)
        (⟨some ((levels.map (·.level)).getLast?.getD level), none⟩, []) steps := by
  induction levels generalizing level with
  | nil => rfl
  | cons a levels ih =>
    have htake : takeMain settings ⟨some level, none⟩ a.step = .ok ⟨some a.level, none⟩ := by
      simp only [LevelArgument.step, takeMain, a.reads]
    rw [List.map_cons, List.cons_append, List.map_cons, List.getLast?_cons, Option.getD_some,
      ← ih a.level, LevelArgument.step, takeSteps]
    · rw [← LevelArgument.step, htake]
    · intro leftover h
      cases h

theorem readArguments_commandLine (settings : Settings) (levels : List LevelArgument)
    (options : List ServeArgument) :
    readArguments settings (commandLine levels options) =
      .ok ⟨some (overriddenLevel settings levels), .serve (.overriddenBy settings options)⟩ := by
  have hcommand : readCommand settings "serve" (options.flatMap ServeArgument.arguments) =
      .ok (.serve (.overriddenBy settings options), []) :=
    ServeArgument.readServe_eq settings options
  simp only [readArguments, steps_commandLine, takeSteps_levels, takeSteps, takeMain, hcommand]
  rfl

/-- The service is started with what the settings and the arguments leave. -/
theorem run_commandLine {world : World} {settings : Settings}
    (hload : Settings.load world.environment = .ok settings) (levels : List LevelArgument)
    (options : List ServeArgument) :
    run world (commandLine levels options) =
      serve (overriddenLevel settings levels) (.overriddenBy settings options) := by
  simp only [run, hload, readArguments_commandLine, Invocation.run]

/-! ### Order -/

/-- The same flags with the same values, those of each name in the same order. -/
def SameByFlag (options options' : List ServeArgument) : Prop :=
  ∀ flag, options.filter (·.flag = flag) = options'.filter (·.flag = flag)

/-- What is read from the arguments of one flag alone is the same. -/
theorem SameByFlag.filterMap_eq {α : Type} {options options' : List ServeArgument}
    (h : SameByFlag options options') {f : ServeArgument → Option α} (flag : Flag)
    (hflag : ∀ a, a.flag ≠ flag → f a = none) : options.filterMap f = options'.filterMap f := by
  have hfilter (as : List ServeArgument) :
      (as.filter (·.flag = flag)).filterMap f = as.filterMap f := by
    rw [List.filterMap_filter]
    refine List.filterMap_congr fun a _ => ?_
    by_cases ha : a.flag = flag
    · simp [ha]
    · simp [ha, hflag a ha]
  rw [← hfilter, h flag, hfilter]

theorem reload_overriddenBy (settings : Settings) (options : List ServeArgument) :
    (ServeOptions.overriddenBy settings options).reload = true ↔ .reload ∈ options := by
  simp only [ServeOptions.overriddenBy, List.any_eq_true]
  constructor
  · rintro ⟨a, hmem, ha⟩
    cases a with
    | reload => exact hmem
    | host | port => cases ha
  · exact fun hmem => ⟨_, hmem, rfl⟩

theorem SameByFlag.overriddenBy_eq {options options' : List ServeArgument}
    (h : SameByFlag options options') (settings : Settings) :
    ServeOptions.overriddenBy settings options = .overriddenBy settings options' := by
  have hhost : options.filterMap ServeArgument.host? = options'.filterMap ServeArgument.host? :=
    h.filterMap_eq hostFlag fun a ha => by
      cases a with
      | host => exact absurd rfl ha
      | port | reload => rfl
  have hport : options.filterMap ServeArgument.port? = options'.filterMap ServeArgument.port? :=
    h.filterMap_eq portFlag fun a ha => by
      cases a with
      | port => exact absurd rfl ha
      | host | reload => rfl
  have hreload : ServeArgument.reload ∈ options ↔ ServeArgument.reload ∈ options' := by
    have hfilter (as : List ServeArgument) :
        ServeArgument.reload ∈ as.filter (·.flag = reloadFlag) ↔ ServeArgument.reload ∈ as := by
      simp [ServeArgument.flag]
    rw [← hfilter, h reloadFlag, hfilter]
  have heq : (ServeOptions.overriddenBy settings options).reload =
      (ServeOptions.overriddenBy settings options').reload := by
    rw [Bool.eq_iff_iff, reload_overriddenBy, reload_overriddenBy, hreload]
  simp only [ServeOptions.overriddenBy] at heq ⊢
  rw [hhost, hport, heq]

/-! ### What decides -/

/-- What is given on the command line decides; if nothing is given there, the variable does, and
the default if the variable holds nothing. -/
def Decides {α : Type} (given : Option α) (held : Option String)
    (read : String → Except SettingsError α) (fallback value : α) : Prop :=
  given = some value ∨ given = none ∧ Settings.Gives held read fallback value

theorem decides_getD {α : Type} {held : Option String} {read : String → Except SettingsError α}
    {fallback value : α} (h : Settings.Gives held read fallback value) (given : Option α) :
    Decides given held read fallback (given.getD value) := by
  cases given with
  | none => exact .inr ⟨rfl, h⟩
  | some _ => exact .inl rfl

/-- In any environment with settings, and with any flags on the command line, the service is started
once, and the program succeeds. The host, the port and the log level are the last ones given on the
command line; one that is not given there comes from its variable, or it is the default. The service
reloads itself just if the command line says so. Flags of different names may change places. -/
theorem run_overrides {world : World} {settings : Settings}
    (hload : Settings.load world.environment = .ok settings) (levels : List LevelArgument)
    (options : List ServeArgument) :
    ∃ outcome host port reload level,
      run world (commandLine levels options) = .ok outcome ∧ outcome.exit = 0 ∧
      outcome.launched = some ⟨"api:app", some host, some port, reload⟩ ∧
      outcome.level = some level ∧
      Decides (options.filterMap ServeArgument.host?).getLast?
        (world.environment "RUBY_ANALYZER_HOST") .ok "127.0.0.1" host ∧
      Decides (options.filterMap ServeArgument.port?).getLast?
        (world.environment "RUBY_ANALYZER_PORT") Settings.readPort 4567 port ∧
      (reload = true ↔ .reload ∈ options) ∧
      Decides (levels.map (·.level)).getLast?
        (world.environment "RUBY_ANALYZER_LOG_LEVEL") Settings.readLogLevel .info level ∧
      ∀ options', SameByFlag options options' →
        run world (commandLine levels options') = .ok outcome := by
  have hread := Settings.load_eq_ok_iff.1 hload
  have hrun := run_commandLine hload levels options
  refine ⟨_, _, _, _, _, hrun, rfl, rfl, rfl, decides_getD hread.host _,
    decides_getD hread.port _, reload_overriddenBy settings options,
    decides_getD hread.logLevel _, fun options' h => ?_⟩
  rw [run_commandLine hload levels options', ← h.overriddenBy_eq settings]
  rfl

/-- An environment with a host and a port of its own. -/
def portWorld : World where
  environment := Settings.portOnly
  input := ""
  file _ := .missing
  grammar := .unavailable

/-- Two ports and a switch between them, which may as well come first. -/
theorem run_overrides_switched :
    ∃ outcome,
      run portWorld ["--log-level= debug", "serve", "--port", "1", "--reload", "--port=-2"] =
        .ok outcome ∧
      run portWorld ["--log-level= debug", "serve", "--reload", "--port", "1", "--port=-2"] =
        .ok outcome ∧
      outcome.exit = 0 ∧ outcome.launched = some ⟨"api:app", some "0.0.0.0", some (-2), true⟩ ∧
      outcome.level = some .debug := by
  have hload : Settings.load portWorld.environment = .ok ⟨"0.0.0.0", 80, ["*"], .info⟩ := by
    decide +kernel
  let level : LevelArgument := ⟨.joined " debug" (by decide), .debug, by decide⟩
  let first : ServeArgument := .port (.apart "1" (by decide)) 1 (by decide)
  let last : ServeArgument := .port (.joined "-2" (by decide)) (-2) (by decide)
  have hsame : SameByFlag [first, .reload, last] [.reload, first, last] := by
    intro flag
    by_cases hport : portFlag = flag
    · subst hport
      rfl
    · simp [List.filter_cons, first, last, ServeArgument.flag, hport]
  obtain ⟨outcome, host, port, reload, level', hrun, hexit, hlaunched, hlevel, hhost, hport,
    hreload, hdebug, hswitched⟩ := run_overrides hload [level] [first, .reload, last]
  -- Only the host is not given on the command line.
  obtain ⟨⟨⟩⟩ | ⟨-, hgives⟩ := hhost
  obtain rfl : host = "0.0.0.0" := hgives.unique (.read rfl (by decide) rfl)
  obtain ⟨⟨⟩⟩ | ⟨⟨⟩, -⟩ := hport
  obtain ⟨⟨⟩⟩ | ⟨⟨⟩, -⟩ := hdebug
  have hreload' : reload = true := hreload.2 (by simp)
  rw [hreload'] at hlaunched
  exact ⟨outcome, hrun, hswitched _ hsame, hexit, hlaunched, hlevel⟩

end RubyOutline.CommandLine
