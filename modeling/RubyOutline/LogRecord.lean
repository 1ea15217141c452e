/-!
Log records and the levels they are kept by.
-/

namespace RubyOutline

/-- The levels that can be asked for. Some severities have two names. -/
inductive LogLevel where
  | critical
  | fatal
  | error
  | warn
  | warning
  | info
  | debug
  | notset
  deriving DecidableEq, Repr

namespace LogLevel

def name : LogLevel → String
  | critical => "CRITICAL"
  | fatal => "FATAL"
  | error => "ERROR"
  | warn => "WARN"
  | warning => "WARNING"
  | info => "INFO"
  | debug => "DEBUG"
  | notset => "NOTSET"

/-- A level keeps the records that are at least as severe as it is. -/
def severity : LogLevel → Nat
  | critical | fatal => 50
  | error => 40
  | warn | warning => 30
  | info => 20
  | debug => 10
  | notset => 0

def all : List LogLevel := [critical, fatal, error, warn, warning, info, debug, notset]

def ofName? (name : String) : Option LogLevel := all.find? (·.name == name)

end LogLevel

structure LogRecord where
  level : LogLevel
  /-- The part of the program that speaks. -/
  logger : String
  message : String
  deriving DecidableEq, Repr

def LogRecord.isKept (threshold : LogLevel) (record : LogRecord) : Bool :=
  threshold.severity ≤ record.level.severity

/-- A record as a line, its time apart. -/
def LogRecord.text (record : LogRecord) : String :=
  s!"{record.level.name} {record.logger}: {record.message}"

end RubyOutline
