import RubyOutline.Analysis
import RubyOutline.CommandLine.Invocation
import RubyOutline.Json.Printer
import RubyOutline.ReportDocument
import RubyOutline.Text.Blank

/-!
The program that the command line runs, as a function of what it finds around
itself. It reads the settings first, so a bad environment wins over a bad
command line; and it writes a report whole or not at all.
-/

namespace RubyOutline.CommandLine

inductive FileState where
  | missing
  | directory
  /-- The path goes on below a file. -/
  | belowFile
  /-- The path, or a name in it, is longer than any can be. -/
  | tooLong
  | contents (bytes : List UInt8)
  deriving DecidableEq, Repr

structure World where
  environment : Environment
  /-- The text that is fed to standard input. -/
  input : String
  /-- Whether the stream that standard input is opened as unifies line ends, as a file does. It
  is up to the platform; where it does not, a carriage return reaches the program as it is. -/
  unifiesInput : Bool := true
  file : String → FileState
  grammar : Grammar

/-- Failures that end the program without an outcome of its own. -/
inductive Crash where
  | settings (cause : SettingsError)
  /-- The flag of the log level is there without a value. -/
  | levelMissing
  /-- The flag of the port is there without a value, and the port is to be logged. -/
  | portMissing
  | fileMissing (path : String)
  | fileIsDirectory (path : String)
  | fileBelowFile (path : String)
  | fileNameTooLong (path : String)
  /-- No path holds a null character. -/
  | nullInPath
  | undecodable (cause : Utf8.DecodeError)
  | parserFailed (message : String)

def Crash.message : Crash → String
  | settings cause => cause.message
  | levelMissing => "Level not an integer or a valid string: []"
  | portMissing => "%d format: a real number is required, not list"
  | fileMissing path => s!"[Errno 2] No such file or directory: {Text.quoted path}"
  | fileIsDirectory path => s!"[Errno 21] Is a directory: {Text.quoted path}"
  | fileBelowFile path => s!"[Errno 20] Not a directory: {Text.quoted path}"
  | fileNameTooLong path => s!"[Errno 36] File name too long: {Text.quoted path}"
  | nullInPath => "embedded null byte"
  | undecodable cause => cause.message
  | parserFailed message => message

structure Launch where
  target : String
  options : ServeOptions
  deriving DecidableEq, Repr

structure Outcome where
  exit : Nat
  stdout : String
  stderr : String
  /-- The log level, once it is set. -/
  level : Option LogLevel
  launched : Option Launch
  logs : List LogRecord
  deriving DecidableEq, Repr

/-- Help is output that was asked for; a complaint is an error. -/
def Halt.outcome : Halt → Outcome
  | help text => ⟨0, text, "", none, none, []⟩
  | complaint interface c =>
    ⟨2, "", s!"{interface.usage}{interface.program}: error: {c.message}\n", none, none, []⟩

/-- A source text with its line ends unified. -/
def sourceText (s : String) : String := String.ofList (Text.unifyLineEnds s.toList)

/-- The text that standard input gives. -/
def World.inputText (world : World) : String :=
  if world.unifiesInput then sourceText world.input else world.input

/-- Reads the source at a path, a lone dash being standard input. Files are always opened to
unify line ends, and standard input is read as it was opened. -/
def readSource (world : World) (path : String) : Except Crash String :=
  if path = "-" then .ok world.inputText
  else if path.toList.contains '\x00' then .error .nullInPath
  else match world.file path with
    | .missing => .error (.fileMissing path)
    | .directory => .error (.fileIsDirectory path)
    | .belowFile => .error (.fileBelowFile path)
    | .tooLong => .error (.fileNameTooLong path)
    | .contents bytes =>
      match Utf8.decode bytes with
      | .ok s => .ok (sourceText s)
      | .error e => .error (.undecodable e)

def showAnalysis (level : LogLevel) (path : String)
    (result : Except AnalysisError (Report (Option Nat))) : Except Crash Outcome :=
  let logs := (analysisLog result).filter (·.isKept level)
  match result with
  | .ok report =>
    .ok ⟨0, Json.render .indented report.document ++ "\n", "", some level, none, logs⟩
  | .error (.parserFailed message) => .error (.parserFailed message)
  | .error e => .ok ⟨1, "", s!"{path}: {e.message}\n", some level, none, logs⟩

def analyze (world : World) (level : LogLevel) (path : String) : Except Crash Outcome :=
  match readSource world path with
  | .ok code => showAnalysis level path (world.grammar.analyze code)
  | .error crash => .error crash

/-- What is logged when the service is started on a port. -/
def announcement (host : Option String) (port : Int) : LogRecord :=
  let shown := host.getD "[]"
  ⟨.info, "ruby_analyzer.cli", s!"Ruby analyzer is running on http://{shown}:{port}"⟩

/-- Starts the service. Without a port there is nothing to announce, which matters
only at the levels that keep the announcement. -/
def serve (level : LogLevel) (options : ServeOptions) : Except Crash Outcome :=
  let started (logs : List LogRecord) : Outcome :=
    ⟨0, "", "", some level, some ⟨"api:app", options⟩, logs⟩
  match options.port with
  | some port => .ok (started ([announcement options.host port].filter (·.isKept level)))
  | none =>
    if LogLevel.info.severity < level.severity then .ok (started []) else .error .portMissing

/-- Carries out what a command line asks for, the log level being set first. -/
def Invocation.run (world : World) (invocation : Invocation) : Except Crash Outcome :=
  match invocation.level, invocation.command with
  | none, _ => .error .levelMissing
  | some level, .analyze path => CommandLine.analyze world level path
  | some level, .serve options => CommandLine.serve level options

def run (world : World) (args : List String) : Except Crash Outcome :=
  match Settings.load world.environment with
  | .error e => .error (.settings e)
  | .ok settings =>
    match readArguments settings args with
    | .error halt => .ok halt.outcome
    | .ok invocation => invocation.run world

end RubyOutline.CommandLine
