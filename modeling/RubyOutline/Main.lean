import RubyOutline.CommandLine.Program

/-!
The executable. It looks around, runs the program and shows the outcome. No
parser and no network listener are built in: whoever has them calls
`CommandLine.run` with a grammar and starts what the outcome launches.
-/

namespace RubyOutline

/-- The environment variables that settings are read from. -/
def variableNames : List String :=
  ["HOST", "PORT", "CORS_ORIGINS", "LOG_LEVEL"].map ("RUBY_ANALYZER_" ++ ·)

/-- What an argument leads to, taken as a path. -/
def lookAt (path : String) : IO CommandLine.FileState := do
  try
    return .contents (← IO.FS.readBinFile path).data.toList
  catch e =>
    match e with
    | .inappropriateType _ 21 _ => return .directory
    | .inappropriateType _ 20 _ => return .belowFile
    | .invalidArgument _ 36 _ => return .tooLong
    | _ => return .missing

/-- The world as the executable finds it. Nothing is translated on standard input. -/
def lookAround (args : List String) : IO CommandLine.World := do
  let values ← variableNames.mapM fun name => return (name, ← IO.getEnv name)
  let files ← args.mapM fun arg => return (arg, ← lookAt arg)
  let input ← if args.contains "-" then (← IO.getStdin).readToEnd else pure ""
  return {
    environment := fun name => (values.lookup name).join
    input
    unifiesInput := false
    file := fun path => (files.lookup path).getD .missing
    grammar := .unavailable }

def execute (args : List String) : IO UInt32 := do
  match CommandLine.run (← lookAround args) args with
  | .error crash =>
    IO.eprintln crash.message
    return 1
  | .ok outcome =>
    for record in outcome.logs do
      IO.eprintln record.text
    IO.eprint outcome.stderr
    IO.print outcome.stdout
    return outcome.exit.toUInt32

end RubyOutline

def main (args : List String) : IO UInt32 := RubyOutline.execute args
