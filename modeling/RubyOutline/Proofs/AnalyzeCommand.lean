import RubyOutline.CommandLine.Program
import RubyOutline.Proofs.Flags
import RubyOutline.Proofs.Gate
import RubyOutline.Proofs.ReportText

/-!
Runs of the command that analyses. A run that returns has read its command line to the end, so
the path in the outcome is the one that was given, however it is spelled; and what it prints
is the text of a report or the message of an error, with an exit status that tells which.
-/

namespace RubyOutline

/-- An error that is shown in place of a report. A parser that fails ends the program. -/
def AnalysisError.isShown : AnalysisError → Bool
  | parserFailed _ => false
  | _ => true

/-! ### What a rejected source is told -/

/-- What a fault says of the tree that a source is rejected for: the row and column, counted from
one, of the node that the gate finds, and nothing if it finds none. -/
def SyntaxFault.Tells (fault : SyntaxFault) (source : ByteArray) (top : Place) : Prop :=
  match top.offender source with
  | none => fault = .somewhere
  | some q => ∃ row column rest, q.label.start = some (.whole row :: .whole column :: rest) ∧
      fault = q.fault source ∧ fault.line? = some (1 + row) ∧ fault.column? = some (1 + column)

namespace Place

theorem eq_faultOf_of_syntaxGate {source : ByteArray} {p : Place} {fault : SyntaxFault}
    (h : p.syntaxGate source = .error fault) : fault = faultOf source (p.offender source) := by
  simp only [syntaxGate] at h
  split at h
  · exact (Except.error.inj h).symm
  · cases h

theorem tells_faultOf {source : ByteArray} {top : Place}
    (hlocated : ∀ q, top.offender source = some q → q.label.Located) :
    (faultOf source (top.offender source)).Tells source top := by
  unfold SyntaxFault.Tells
  cases hfound : top.offender source with
  | none => rfl
  | some q =>
    obtain ⟨row, column, rest, hstart⟩ := hlocated q hfound
    exact ⟨row, column, rest, hstart, rfl, fault_position hstart⟩

end Place

namespace Grammar

/-- The parser gives the tree for the source. -/
def Yields (grammar : Grammar) (source : ByteArray) (top : Place) : Prop :=
  ∃ parse, grammar = .installed parse ∧ parse source = .ok top

/-- A source is rejected for what the gate finds in its tree. -/
theorem yields_of_analyze {grammar : Grammar} {code : String} {fault : SyntaxFault}
    (h : grammar.analyze code = .error (.rejected fault)) :
    ∃ top, grammar.Yields code.toUTF8 top ∧
      fault = Place.faultOf code.toUTF8 (top.offender code.toUTF8) := by
  cases grammar with
  | unavailable => cases h
  | installed parse =>
    cases hparse : parse code.toUTF8 with
    | error message =>
      simp only [analyze, Grammar.parse, hparse] at h
      cases h
    | ok top =>
      refine ⟨top, ⟨parse, rfl, hparse⟩, ?_⟩
      simp only [analyze, Grammar.parse, hparse] at h
      cases hgate : top.syntaxGate code.toUTF8 with
      | ok =>
        rw [hgate] at h
        cases h
      | error fault' =>
        rw [hgate] at h
        cases h
        exact Place.eq_faultOf_of_syntaxGate hgate

end Grammar

namespace CommandLine

/-! ### The path of the command -/

theorem takePath_cases {path path' : Option String} {step : Step}
    (h : takeCommon analyzeInterface analyzeHelp takePath path step = .ok path') :
    path' = path ∨ ∃ a, step = .operand [a] ∧ path' = some a := by
  cases step with
  | help | complain => cases h
  | switch | value | leftover =>
    cases h
    exact .inl rfl
  | operand arguments =>
    match arguments, h with
    | [], h | _ :: _ :: _, h =>
      cases h
      exact .inl rfl
    | [a], h =>
      cases h
      exact .inr ⟨a, rfl, rfl⟩

theorem operand_mem_of_takeSteps {leftovers rest : List String} {steps : List Step} {p : String}
    (h : takeSteps (takeCommon analyzeInterface analyzeHelp takePath) (none, leftovers) steps =
      .ok (some p, rest)) :
    .operand [p] ∈ steps := by
  obtain ⟨hfold, -⟩ := (takeSteps_eq_ok_iff fun _ _ => rfl).1 h
  have hstep (path : Option String) (step : Step) (path' : Option String)
      (htake : takeCommon analyzeInterface analyzeHelp takePath path step = .ok path')
      (hp : path' = some p) : path = some p ∨ step = .operand [p] := by
    obtain rfl | ⟨a, rfl, ha⟩ := takePath_cases htake
    · exact .inl hp
    · cases hp.symm.trans ha
      exact .inr rfl
  obtain hnone | ⟨step, hmem, rfl⟩ := exists_step_of_foldlM hstep hfold rfl
  · cases hnone
  · exact hmem

theorem mem_of_readAnalyze {args rest : List String} {command : Command}
    (h : readAnalyze args = .ok (command, rest)) : ∃ path ∈ args, command = .analyze path := by
  simp only [readAnalyze] at h
  split at h
  · cases h
  · cases h
  · next path leftovers hsteps =>
    cases h
    have hmem := operand_mem_of_takeSteps hsteps
    exact ⟨path, mem_of_operand_mem_steps hmem (List.mem_singleton_self path), rfl⟩

/-- Whatever the path looks like, the command is given it as it is. -/
theorem readArguments_analyze {settings : Settings} {path : String} {invocation : Invocation}
    (h : readArguments settings ["analyze", path] = .ok invocation) :
    invocation = ⟨some settings.logLevel, .analyze path⟩ := by
  have hname : "analyze".toList.head? ≠ some '-' := by decide
  have hcommand : readCommand settings "analyze" [path] = readAnalyze [path] := if_pos rfl
  simp only [readArguments] at h
  rw [steps_command hname] at h
  cases hsorted : sortArguments mainInterface.flags [path] with
  | error complaint =>
    rw [hsorted] at h
    cases h
  | ok tokens =>
    rw [hsorted] at h
    simp only [takeSteps, takeMain, hcommand] at h
    cases hread : readAnalyze [path] with
    | error halt => simp [hread] at h
    | ok read =>
      obtain ⟨command, untaken⟩ := read
      obtain ⟨path', hpath, rfl⟩ := mem_of_readAnalyze hread
      obtain rfl := List.mem_singleton.mp hpath
      simp only [hread] at h
      split at h
      · exact (Except.ok.inj h).symm
      · cases h

/-! ### Runs that return -/

/-- The settings and the command line are accepted, and the command comes to an outcome. -/
def Returns (world : World) (args : List String) (outcome : Outcome) : Prop :=
  ∃ settings invocation, Settings.load world.environment = .ok settings ∧
    readArguments settings args = .ok invocation ∧ invocation.run world = .ok outcome

/-- A report or an error is shown at the level that was set, and no service is started. -/
theorem level_of_showAnalysis {level : LogLevel} {path : String}
    {result : Except AnalysisError (Report (Option Nat))} {outcome : Outcome}
    (h : showAnalysis level path result = .ok outcome) :
    outcome.level = some level ∧ outcome.launched = none := by
  unfold showAnalysis at h
  split at h <;> cases h <;> exact ⟨rfl, rfl⟩

theorem level_of_serve {level : LogLevel} {options : ServeOptions} {outcome : Outcome}
    (h : serve level options = .ok outcome) :
    outcome.level = some level ∧ outcome.launched = some ⟨"api:app", options⟩ := by
  simp only [serve] at h
  split at h
  · cases h
    exact ⟨rfl, rfl⟩
  · split at h <;> cases h
    exact ⟨rfl, rfl⟩

theorem Halt.level_outcome (halt : Halt) :
    halt.outcome.level = none ∧ halt.outcome.launched = none := by
  cases halt <;> exact ⟨rfl, rfl⟩

/-- What is carried out is one of the two commands, and the log level is set before. -/
theorem Invocation.run_eq_ok {world : World} {invocation : Invocation} {outcome : Outcome}
    (h : invocation.run world = .ok outcome) :
    ∃ level, outcome.level = some level ∧
      ((∃ path, invocation = ⟨some level, .analyze path⟩ ∧ outcome.launched = none) ∨
        ∃ options, invocation = ⟨some level, .serve options⟩ ∧
          outcome.launched = some ⟨"api:app", options⟩) := by
  obtain ⟨level, command⟩ := invocation
  cases level with
  | none => cases h
  | some level =>
    cases command with
    | analyze path =>
      simp only [Invocation.run, analyze] at h
      split at h
      · obtain ⟨hlevel, hlaunched⟩ := level_of_showAnalysis h
        exact ⟨level, hlevel, .inl ⟨path, rfl, hlaunched⟩⟩
      · cases h
    | serve options =>
      obtain ⟨hlevel, hlaunched⟩ := level_of_serve h
      exact ⟨level, hlevel, .inr ⟨options, rfl, hlaunched⟩⟩

theorem halts_or_returns {world : World} {args : List String} {outcome : Outcome}
    (h : run world args = .ok outcome) :
    (∃ halt : Halt, outcome = halt.outcome) ∨ Returns world args outcome := by
  rw [run] at h
  split at h
  · cases h
  · next settings hload =>
    split at h
    · next halt hread =>
      cases h
      exact .inl ⟨halt, rfl⟩
    · next invocation hread => exact .inr ⟨settings, invocation, hload, hread, h⟩

/-- Runs that return are those that get as far as to set the log level. -/
theorem returns_iff {world : World} {args : List String} {outcome : Outcome} :
    Returns world args outcome ↔ run world args = .ok outcome ∧ outcome.level ≠ none := by
  constructor
  · rintro ⟨settings, invocation, hload, hread, hrun⟩
    obtain ⟨level, hlevel, -⟩ := Invocation.run_eq_ok hrun
    exact ⟨by simp only [run, hload, hread, hrun], by simp [hlevel]⟩
  · rintro ⟨hrun, hlevel⟩
    obtain ⟨halt, rfl⟩ | hreturns := halts_or_returns hrun
    · exact absurd halt.level_outcome.1 hlevel
    · exact hreturns

/-- What a run of the command that analyses comes to. -/
theorem showAnalysis_eq_ok {level : LogLevel} {path : String}
    {result : Except AnalysisError (Report (Option Nat))} {outcome : Outcome}
    (h : showAnalysis level path result = .ok outcome) :
    (∃ report, result = .ok report ∧ outcome.exit = 0 ∧ outcome.stdout = report.text ++ "\n") ∨
      ∃ e, result = .error e ∧ e.isShown = true ∧ outcome.exit = 1 ∧ outcome.stdout = "" ∧
        outcome.stderr = path ++ ": " ++ e.message ++ "\n" := by
  cases result with
  | ok report =>
    cases h
    exact .inl ⟨report, rfl, rfl, rfl⟩
  | error e =>
    cases e with
    | parserFailed message => cases h
    | grammarUnavailable | rejected =>
      cases h
      exact .inr ⟨_, rfl, rfl, rfl, rfl, rfl⟩

/-- A run of the command that analyses either prints a report, as a JSON text in ASCII that
the report can be read back from, or it prints nothing and shows the message of an error. A node
that a source is rejected for has to state its row and column, without which there would be no
message; they are the ones that the error tells. -/
theorem returns_analyze {world : World} {path : String} {outcome : Outcome}
    (h : Returns world ["analyze", path] outcome)
    (hlocated : ∀ code top q, readSource world path = .ok code →
      world.grammar.Yields code.toUTF8 top → top.offender code.toUTF8 = some q →
      q.label.Located) :
    ∃ code, readSource world path = .ok code ∧
      (outcome.exit = 0 ↔ ∃ report, world.grammar.analyze code = .ok report) ∧
      (∀ report, world.grammar.analyze code = .ok report →
        outcome.stdout = report.text ++ "\n") ∧
      (∀ report : Report (Option Nat),
        IsAscii report.text.toList ∧ Report.ofText? report.text = some report) ∧
      Function.Injective Report.text ∧
      (outcome.exit = 1 ↔ ∃ e, world.grammar.analyze code = .error e ∧ e.isShown = true) ∧
      (∀ e, world.grammar.analyze code = .error e →
        e.isShown = true ∧ outcome.stdout = "" ∧
          outcome.stderr = path ++ ": " ++ e.message ++ "\n") ∧
      ∀ fault, world.grammar.analyze code = .error (.rejected fault) →
        ∃ top, world.grammar.Yields code.toUTF8 top ∧ fault.Tells code.toUTF8 top := by
  obtain ⟨settings, invocation, -, hread, hrun⟩ := h
  rw [readArguments_analyze hread] at hrun
  simp only [Invocation.run, analyze] at hrun
  split at hrun
  · next code hcode =>
    have htext (report : Report (Option Nat)) :=
      And.intro report.isAscii_text report.ofText?_text
    have hfault (fault : SyntaxFault)
        (hrejected : world.grammar.analyze code = .error (.rejected fault)) :
        ∃ top, world.grammar.Yields code.toUTF8 top ∧ fault.Tells code.toUTF8 top := by
      obtain ⟨top, hyields, rfl⟩ := Grammar.yields_of_analyze hrejected
      exact ⟨top, hyields, Place.tells_faultOf fun q => hlocated code top q hcode hyields⟩
    refine ⟨code, hcode, ?_, ?_, htext, Report.text_injective, ?_, ?_, hfault⟩
    all_goals
      obtain ⟨report, hreport, hexit, hstdout⟩ | ⟨e, he, hshown, hexit, hstdout, hstderr⟩ :=
        showAnalysis_eq_ok hrun
    · simp [hexit, hreport]
    · simp [hexit, he]
    · intro report' hreport'
      obtain rfl := Except.ok.inj (hreport.symm.trans hreport')
      exact hstdout
    · simp [he]
    · simp [hexit, hreport]
    · simp [hexit, he, hshown]
    · simp [hreport]
    · intro e' he'
      obtain rfl := Except.error.inj (he.symm.trans he')
      exact ⟨hshown, hstdout, hstderr⟩
  · cases hrun

/-- A class whose name is not in ASCII, on a standard input that keeps carriage returns. -/
def smilingSource : String := "class É😀\r\nend"

def smilingProgram : Place :=
  .top ⟨"program", ⟨0, 17⟩, some [.whole 0, .whole 0], none, true, false, false, false⟩
    [.node ⟨"class", ⟨0, 17⟩, some [.whole 0, .whole 0], none, true, false, false, false⟩
      [.node ⟨"constant", ⟨6, 12⟩, some [.whole 0, .whole 6], some "name", true, false, false,
        false⟩ []]]

def smilingWorld : World where
  environment _ := none
  input := smilingSource
  unifiesInput := false
  file _ := .missing
  grammar := .installed fun _ => .ok smilingProgram

def smilingReport : Report (Option Nat) := .classes [⟨"É😀", none, some 1, []⟩]

theorem returns_analyze_smiling :
    ∃ outcome, Returns smilingWorld ["analyze", "-"] outcome ∧ outcome.exit = 0 ∧
      readSource smilingWorld "-" = .ok smilingSource ∧
      outcome.stdout = smilingReport.text ++ "\n" ∧ IsAscii smilingReport.text.toList ∧
      Report.ofText? smilingReport.text = some smilingReport := by
  have hcode : readSource smilingWorld "-" = .ok smilingSource := rfl
  have hfound : smilingProgram.offender smilingSource.toUTF8 = none := by
    have hnone : (smilingProgram.offender smilingSource.toUTF8).isNone = true := by decide +kernel
    exact Option.isNone_iff_eq_none.1 hnone
  have hreport : smilingWorld.grammar.analyze smilingSource = .ok smilingReport := by
    have hanswer : (smilingWorld.grammar.analyze smilingSource).toOption = some smilingReport := by
      decide +kernel
    cases hresult : smilingWorld.grammar.analyze smilingSource with
    | error e => simp [hresult, Except.toOption] at hanswer
    | ok report => simpa [hresult, Except.toOption] using hanswer
  have hrun : Returns smilingWorld ["analyze", "-"]
      ⟨0, smilingReport.text ++ "\n", "", some .info, none, []⟩ := by
    refine ⟨.default, ⟨some .info, .analyze "-"⟩, rfl, rfl, ?_⟩
    simp only [Invocation.run, analyze, hcode, hreport]
    rfl
  have hlocated (code : String) (top q : Place) (hread : readSource smilingWorld "-" = .ok code)
      (hyields : smilingWorld.grammar.Yields code.toUTF8 top)
      (hoffender : top.offender code.toUTF8 = some q) : q.label.Located := by
    obtain ⟨parse, hparse, htop⟩ := hyields
    obtain rfl := Except.ok.inj (hcode.symm.trans hread)
    obtain rfl := Grammar.installed.inj hparse
    obtain rfl := Except.ok.inj htop
    cases hfound.symm.trans hoffender
  obtain ⟨code, hread, hexit, hstdout, htext, -⟩ := returns_analyze hrun hlocated
  obtain rfl := Except.ok.inj (hcode.symm.trans hread)
  exact ⟨_, hrun, hexit.mpr ⟨_, hreport⟩, hcode, hstdout _ hreport, htext smilingReport⟩

end CommandLine

end RubyOutline
