import RubyOutline.CommandLine.Interface
import RubyOutline.Settings

/-!
What a command line asks for. Flags win over the environment, and of a repeated
flag the last one wins. A complaint is made by the interface that meets it,
except that arguments nobody takes are left to the program's own, which makes
that complaint last.
-/

namespace RubyOutline.CommandLine

/-- Where the service is to listen, and whether it reloads itself. A host or a port
is `none` where its flag is there without a value. -/
structure ServeOptions where
  host : Option String
  port : Option Int
  reload : Bool
  deriving DecidableEq, Repr

inductive Command where
  | analyze (path : String)
  | serve (options : ServeOptions)
  deriving DecidableEq, Repr

structure Invocation where
  /-- The log level, `none` where its flag is there without a value. -/
  level : Option LogLevel
  command : Command
  deriving DecidableEq, Repr

inductive Halt where
  /-- It asked for help. -/
  | help (text : String)
  | complaint (interface : Interface) (complaint : Complaint)

/-- Takes steps one after the other, with the arguments that nothing takes on the
side. -/
def takeSteps {α : Type} (take : α → Step → Except Halt α) :
    α × List String → List Step → Except Halt (α × List String)
  | state, [] => .ok state
  | (a, leftovers), .leftover argument :: steps =>
    takeSteps take (a, leftovers ++ [argument]) steps
  | (a, leftovers), step :: steps =>
    match take a step with
    | .ok a => takeSteps take (a, leftovers) steps
    | .error halt => .error halt

/-- Takes a step of an interface that has a help text. Values, switches and the
operand are left to `other`. -/
def takeCommon {α : Type} (interface : Interface) (help : String)
    (other : α → Step → Except Complaint α) (a : α) (step : Step) : Except Halt α :=
  match step with
  | .help => .error (.help help)
  | .complain complaint => .error (.complaint interface complaint)
  | step =>
    match other a step with
    | .ok a => .ok a
    | .error complaint => .error (.complaint interface complaint)

/-- Takes the path of the command that analyses. -/
def takePath (path : Option String) : Step → Except Complaint (Option String)
  | .operand [argument] => .ok (some argument)
  | _ => .ok path

/-- What the arguments of the command that analyses ask for, and the arguments
that nothing takes. -/
def readAnalyze (args : List String) : Except Halt (Command × List String) :=
  let steps := steps analyzeInterface.flags analyzeInterface.operand args
  match takeSteps (takeCommon analyzeInterface analyzeHelp takePath) (none, []) steps with
  | .error halt => .error halt
  | .ok (none, _) => .error (.complaint analyzeInterface (.required "path"))
  | .ok (some path, leftovers) => .ok (.analyze path, leftovers)

/-- Takes a flag of the command that serves. -/
def takeServe (options : ServeOptions) : Step → Except Complaint ServeOptions
  | .switch _ => .ok { options with reload := true }
  | .value flag value =>
    if flag = hostFlag then .ok { options with host := value }
    else match value with
      | none => .ok { options with port := none }
      | some text =>
        match Text.integer? text with
        | some port => .ok { options with port := some port }
        | none => .error (.invalidValue flag "int" text)
  | _ => .ok options

/-- What the arguments of the command that serves ask for, and the arguments that
nothing takes. -/
def readServe (settings : Settings) (args : List String) :
    Except Halt (Command × List String) :=
  let steps := steps serveInterface.flags serveInterface.operand args
  let options := ⟨some settings.host, some settings.port, false⟩
  match takeSteps (takeCommon serveInterface serveHelp takeServe) (options, []) steps with
  | .error halt => .error halt
  | .ok (options, leftovers) => .ok (.serve options, leftovers)

def commandNames : List String := ["analyze", "serve"]

/-- What a command and its arguments ask for. -/
def readCommand (settings : Settings) (name : String) (args : List String) :
    Except Halt (Command × List String) :=
  if name = "analyze" then readAnalyze args
  else if name = "serve" then readServe settings args
  else .error (.complaint mainInterface (.invalidChoice "cmd" name commandNames))

/-- What the program's own arguments have asked for so far. -/
structure Request where
  level : Option LogLevel
  /-- The command, with the arguments that it does not take. -/
  command : Option (Command × List String)

/-- Takes a flag of the program, or its command. -/
def takeMain (settings : Settings) (request : Request) (step : Step) : Except Halt Request :=
  match step with
  | .help => .error (.help (mainHelp settings.logLevel))
  | .complain complaint => .error (.complaint mainInterface complaint)
  | .value _ none => .ok { request with level := none }
  | .value flag (some text) =>
    match Settings.readLogLevel text with
    | .ok level => .ok { request with level := some level }
    | .error _ =>
      .error (.complaint mainInterface (.invalidValue flag "parse_log_level" text))
  | .operand (name :: args) =>
    match readCommand settings name args with
    | .ok command => .ok { request with command := some command }
    | .error halt => .error halt
  | _ => .ok request

def readArguments (settings : Settings) (args : List String) : Except Halt Invocation :=
  let steps := steps mainInterface.flags mainInterface.operand args
  match takeSteps (takeMain settings) (⟨some settings.logLevel, none⟩, []) steps with
  | .error halt => .error halt
  | .ok (⟨_, none⟩, _) => .error (.complaint mainInterface (.required "cmd"))
  | .ok (⟨level, some (command, untaken)⟩, leftovers) =>
    let unrecognized := leftovers ++ untaken
    if unrecognized.isEmpty then .ok ⟨level, command⟩
    else .error (.complaint mainInterface (.unrecognized unrecognized))

end RubyOutline.CommandLine
