import RubyOutline.Proofs.AnalyzeCommand
import RubyOutline.Proofs.Overrides

/-!
Runs of the command that serves. A port from the environment is between 1 and 65535. One from the
command line is any integer: the flag is read with no bounds, and the service is started on
whatever was written.
-/

namespace RubyOutline

namespace CommandLine

/-! ### The command of a run -/

theorem takeMain_eq_ok {settings : Settings} {request request' : Request} {step : Step}
    {taken : Command × List String} (h : takeMain settings request step = .ok request')
    (htaken : request'.command = some taken) :
    request.command = some taken ∨
      ∃ name args, step = .operand (name :: args) ∧ readCommand settings name args = .ok taken := by
  unfold takeMain at h
  split at h
  · cases h
  · cases h
  · cases h
    exact .inl htaken
  · split at h
    · cases h
      exact .inl htaken
    · cases h
  · next name args =>
    split at h
    · next command hread =>
      cases h
      cases htaken
      exact .inr ⟨name, args, rfl, hread⟩
    · cases h
  · cases h
    exact .inl htaken

/-- The command of an invocation is read from the operand of the program, and nothing is left
over from it. -/
theorem exists_of_readArguments {settings : Settings} {args : List String}
    {invocation : Invocation} (h : readArguments settings args = .ok invocation) :
    ∃ name commandArgs,
      .operand (name :: commandArgs) ∈ steps mainInterface.flags mainInterface.operand args ∧
        readCommand settings name commandArgs = .ok (invocation.command, []) := by
  simp only [readArguments] at h
  split at h
  · cases h
  · cases h
  · next level command untaken leftovers hsteps =>
    split at h
    · next hempty =>
      cases h
      obtain ⟨hfold, -⟩ := (takeSteps_eq_ok_iff fun _ _ => rfl).1 hsteps
      have hstep (request : Request) (step : Step) (request' : Request)
          (htake : takeMain settings request step = .ok request')
          (htaken : request'.command = some (command, untaken)) := takeMain_eq_ok htake htaken
      obtain hnone | ⟨_, hmem, name, commandArgs, rfl, hread⟩ :=
        exists_step_of_foldlM hstep hfold rfl
      · cases hnone
      · obtain ⟨-, rfl⟩ := List.append_eq_nil_iff.1 (List.isEmpty_iff.1 hempty)
        exact ⟨name, commandArgs, hmem, hread⟩
    · cases h

theorem readCommand_serve {settings : Settings} {name : String} {args rest : List String}
    {options : ServeOptions} (h : readCommand settings name args = .ok (.serve options, rest)) :
    name = "serve" ∧ readServe settings args = .ok (.serve options, rest) := by
  unfold readCommand at h
  split at h
  · obtain ⟨_, -, ⟨⟩⟩ := mem_of_readAnalyze h
  · split at h
    · next hname => exact ⟨hname, h⟩
    · cases h

/-- Only the command that serves starts the service, and it does so with its options. -/
theorem exists_of_launched {world : World} {args : List String} {outcome : Outcome}
    {launch : Launch} (h : run world args = .ok outcome)
    (hlaunch : outcome.launched = some launch) :
    ∃ settings level options, Settings.load world.environment = .ok settings ∧
      readArguments settings args = .ok ⟨some level, .serve options⟩ ∧
        launch = ⟨"api:app", options⟩ := by
  obtain ⟨halt, rfl⟩ | ⟨settings, invocation, hload, hread, hrun⟩ := halts_or_returns h
  · cases halt.level_outcome.2.symm.trans hlaunch
  obtain ⟨level, -, ⟨path, -, hnone⟩ | ⟨options, rfl, hserved⟩⟩ := Invocation.run_eq_ok hrun
  · cases hnone.symm.trans hlaunch
  · exact ⟨settings, level, options, hload, hread, Option.some.inj (hlaunch.symm.trans hserved)⟩

/-- The service is started on any integer that the command line gives. -/
theorem run_serve_port {world : World} {settings : Settings}
    (hload : Settings.load world.environment = .ok settings) {text : String} {port : Int}
    (htext : Text.integer? text = some port) :
    ∃ outcome, run world ["serve", "--port" ++ "=" ++ text] = .ok outcome ∧
      outcome.launched = some ⟨"api:app", some settings.host, some port, false⟩ := by
  have hdashes : text ≠ "--" := by
    rintro rfl
    have hnone : Text.integer? "--" = none := by decide
    cases hnone.symm.trans htext
  have hrun := run_commandLine hload [] [.port (.joined text hdashes) port htext]
  exact ⟨_, hrun, rfl⟩

/-! ### The port of a run -/

/-- A service is started on the last port that the command line gives, on that of the settings if
it gives none. Its port is within bounds exactly if the text of that last port would have been
accepted from the environment, which nothing on the command line checks. -/
theorem port_of_launched {world : World} {args : List String} {outcome : Outcome}
    {launch : Launch} (h : run world args = .ok outcome)
    (hlaunch : outcome.launched = some launch) :
    ∃ settings serveArgs, Settings.load world.environment = .ok settings ∧
      (1 ≤ settings.port ∧ settings.port ≤ 65535) ∧
      .operand ("serve" :: serveArgs) ∈ steps mainInterface.flags mainInterface.operand args ∧
      launch.options.port = ((lastValue? portFlag (serveSteps serveArgs)).map
        (·.bind Text.integer?)).getD (some settings.port) ∧
      ((∃ port, launch.options.port = some port ∧ 1 ≤ port ∧ port ≤ 65535) ↔
        ∀ value, lastValue? portFlag (serveSteps serveArgs) = some value →
          ∃ text port, value = some text ∧ Settings.readPort text = .ok port) := by
  obtain ⟨settings, level, options, hload, hread, rfl⟩ := exists_of_launched h hlaunch
  obtain ⟨name, serveArgs, hmem, hcommand⟩ := exists_of_readArguments hread
  obtain ⟨rfl, hserve⟩ := readCommand_serve hcommand
  have hbounds := Settings.port_of_load hload
  have hport : options.port = ((lastValue? portFlag (serveSteps serveArgs)).map
      (·.bind Text.integer?)).getD (some settings.port) := by
    rw [options_of_readServe hserve]
    rfl
  refine ⟨settings, serveArgs, hload, hbounds, hmem, hport, ?_⟩
  dsimp only
  rw [hport]
  -- The command line names no port, or it names one without a value, or with one.
  match lastValue? portFlag (serveSteps serveArgs) with
  | none => simpa using hbounds
  | some none => simp
  | some (some text) => simp [Settings.readPort_eq_ok_iff]

/-- A world with nothing in its environment. -/
def bareWorld : World where
  environment _ := none
  input := ""
  file _ := .missing
  grammar := .unavailable

theorem port_of_launched_repeated :
    ∃ outcome launch,
      run bareWorld ["serve", "--port", "70000", "--port=9000"] = .ok outcome ∧
        outcome.launched = some launch ∧
        ∃ port, launch.options.port = some port ∧ 1 ≤ port ∧ port ≤ 65535 := by
  have hrun : run bareWorld ["serve", "--port", "70000", "--port=9000"] =
      .ok ⟨0, "", "", some .info, some ⟨"api:app", some "127.0.0.1", some 9000, false⟩,
        [announcement (some "127.0.0.1") 9000]⟩ := rfl
  refine ⟨_, _, hrun, rfl, ?_⟩
  obtain ⟨settings, serveArgs, -, -, hmem, -, hiff⟩ := port_of_launched hrun rfl
  have hsteps : steps mainInterface.flags mainInterface.operand
      ["serve", "--port", "70000", "--port=9000"] =
        [.operand ["serve", "--port", "70000", "--port=9000"]] := by decide +kernel
  rw [hsteps, List.mem_singleton] at hmem
  obtain ⟨-, rfl⟩ := List.cons.inj (Step.operand.inj hmem)
  have hlast : lastValue? portFlag (serveSteps ["--port", "70000", "--port=9000"]) =
      some (some "9000") := by decide +kernel
  have hport : Settings.readPort "9000" = .ok 9000 := by rfl
  refine hiff.2 fun value hvalue => ?_
  rw [hlast, Option.some.injEq] at hvalue
  exact ⟨"9000", 9000, hvalue.symm, hport⟩

/-- A port that would have been refused from the environment. -/
theorem run_serve_port_beyond :
    ∃ outcome launch, run bareWorld ["serve", "--port=70000"] = .ok outcome ∧
      outcome.launched = some launch ∧ launch.options.port = some 70000 ∧
      ¬ ∃ port, launch.options.port = some port ∧ 1 ≤ port ∧ port ≤ 65535 := by
  have hload : Settings.load bareWorld.environment = .ok .default := rfl
  have hport : Text.integer? "70000" = some 70000 := by decide
  obtain ⟨outcome, hrun, hlaunch⟩ := run_serve_port hload hport
  refine ⟨outcome, _, hrun, hlaunch, rfl, ?_⟩
  rintro ⟨port, ⟨⟩, -, hle⟩
  revert hle
  decide

end CommandLine

end RubyOutline
