import RubyOutline.LogRecord
import RubyOutline.Text.Capital
import RubyOutline.Text.Numeral
import RubyOutline.Text.Quoted

/-!
Settings from the environment. A variable that is unset or empty leaves its
setting at the default, and every setting is read from one variable alone.
-/

namespace RubyOutline

structure Settings where
  host : String
  port : Int
  corsOrigins : List String
  logLevel : LogLevel
  deriving DecidableEq, Repr

inductive SettingsError where
  | invalidPort (raw : String)
  | portOutOfRange (port : Int)
  | unknownLogLevel (raw : String)
  deriving DecidableEq, Repr

def SettingsError.message : SettingsError → String
  | invalidPort raw => s!"Invalid port: {Text.quoted raw}"
  | portOutOfRange port => s!"Port out of range: {port}"
  | unknownLogLevel raw => s!"Unknown log level: {Text.quoted raw}"

abbrev Environment := String → Option String

namespace Settings

def default : Settings := ⟨"127.0.0.1", 4567, ["*"], .info⟩

/-- A port is a numeral between 1 and 65535. -/
def readPort (raw : String) : Except SettingsError Int :=
  match Text.integer? raw with
  | none => .error (.invalidPort raw)
  | some port => if 0 < port ∧ port < 65536 then .ok port else .error (.portOutOfRange port)

/-- A level is read without regard to case and to blanks around it. -/
def readLogLevel (raw : String) : Except SettingsError LogLevel :=
  let name := String.ofList (Text.capitals (Text.trimBy Text.isBlank raw.toList))
  match LogLevel.ofName? name with
  | none => .error (.unknownLogLevel raw)
  | some level => .ok level

/-- Origins are kept apart by commas; blank ones do not count, and a text without
any stands for all origins. -/
def readOrigins (raw : String) : List String :=
  let origins := ((Text.splitAtChar ',' raw.toList).map (Text.trimBy Text.isBlank)).filter
    (!·.isEmpty)
  if origins.isEmpty then ["*"] else origins.map String.ofList

/-- The value of a variable that is set to something. -/
def setting? (env : Environment) (name : String) : Option String :=
  (env ("RUBY_ANALYZER_" ++ name)).filter (!·.isEmpty)

/-- Reads a variable, or falls back on a default. -/
def readOr {α : Type} (value? : Option String) (read : String → Except SettingsError α)
    (fallback : α) : Except SettingsError α :=
  match value? with
  | none => .ok fallback
  | some raw => read raw

/-- The settings of an environment. The port is looked at before the log level. -/
def load (env : Environment) : Except SettingsError Settings := do
  let port ← readOr (setting? env "PORT") readPort default.port
  let logLevel ← readOr (setting? env "LOG_LEVEL") readLogLevel default.logLevel
  return {
    host := (setting? env "HOST").getD default.host
    port
    corsOrigins := ((setting? env "CORS_ORIGINS").map readOrigins).getD default.corsOrigins
    logLevel }

end Settings

end RubyOutline
