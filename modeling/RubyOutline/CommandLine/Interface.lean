import RubyOutline.CommandLine.Option
import RubyOutline.LogRecord

/-!
The interfaces of the program and of its two commands, and the texts that
explain them.
-/

namespace RubyOutline.CommandLine

structure Interface where
  program : String
  /-- What follows the name of the program in its usage line. -/
  synopsis : String
  flags : List Flag
  operand : Option Arity

def Interface.usage (i : Interface) : String := s!"usage: {i.program} {i.synopsis}\n"

def helpFlag : Flag := ⟨["-h", "--help"], .help⟩

def logLevelFlag : Flag := ⟨["--log-level"], .value⟩

def hostFlag : Flag := ⟨["--host"], .value⟩

def portFlag : Flag := ⟨["--port"], .value⟩

def reloadFlag : Flag := ⟨["--reload"], .switch⟩

def mainInterface : Interface where
  program := "ruby-analyzer"
  synopsis := "[-h] [--log-level LOG_LEVEL] \x7banalyze,serve\x7d ..."
  flags := [helpFlag, logLevelFlag]
  operand := some .rest

def analyzeInterface : Interface where
  program := "ruby-analyzer analyze"
  synopsis := "[-h] path"
  flags := [helpFlag]
  operand := some .one

def serveInterface : Interface where
  program := "ruby-analyzer serve"
  synopsis := "[-h] [--host HOST] [--port PORT] [--reload]"
  flags := [helpFlag, hostFlag, portFlag, reloadFlag]
  operand := none

def joinLines (lines : List String) : String := String.join (lines.map (· ++ "\n"))

/-- The help on the program; the log level from the environment is the default of
the flag. -/
def mainHelp (level : LogLevel) : String :=
  mainInterface.usage ++ joinLines
    ["",
      "positional arguments:",
      "  \x7banalyze,serve\x7d",
      "    analyze             Analyze a Ruby file and print the report JSON",
      "    serve               Run the HTTP analysis service",
      "",
      "options:",
      "  -h, --help            show this help message and exit",
      "  --log-level LOG_LEVEL",
      s!"                        Logging level (default: {level.name})"]

def analyzeHelp : String :=
  analyzeInterface.usage ++ joinLines
    ["",
      "positional arguments:",
      "  path        Path to a Ruby source file, or - for stdin",
      "",
      "options:",
      "  -h, --help  show this help message and exit"]

def serveHelp : String :=
  serveInterface.usage ++ joinLines
    ["",
      "options:",
      "  -h, --help   show this help message and exit",
      "  --host HOST",
      "  --port PORT",
      "  --reload"]

end RubyOutline.CommandLine
