import PlonkGates.Text.Newline

/-!
# Log records

The steps of a command leave records, each with a level and the part of the program that speaks. A
record is shown if its level reaches the threshold of the log.
-/

namespace PlonkGates

inductive LogLevel where
  | debug
  | info
  | warning
  | error
  | critical
deriving DecidableEq, Repr

namespace LogLevel

/-- The levels from the least to the most severe. -/
def all : List LogLevel := [debug, info, warning, error, critical]

def title : LogLevel → String
  | debug => "DEBUG"
  | info => "INFO"
  | warning => "WARNING"
  | error => "ERROR"
  | critical => "CRITICAL"

def severity : LogLevel → Int
  | debug => 10
  | info => 20
  | warning => 30
  | error => 40
  | critical => 50

def ofTitle? (s : String) : Option LogLevel := all.find? (·.title = s)

end LogLevel

structure LogRecord where
  level : LogLevel
  /-- The part of the program that speaks. -/
  origin : String
  message : String
deriving DecidableEq, Repr

namespace LogRecord

def toText (r : LogRecord) : String := r.level.title ++ " " ++ r.origin ++ ": " ++ r.message

/-- The line of a record that carries its level and its origin. -/
def firstLine (r : LogRecord) : String := String.ofList (Text.firstLine r.toText.toList)

/-- The lines that follow, if the message has line feeds; empty ones are left out. -/
def furtherLines (r : LogRecord) : List String :=
  Text.filledLines (String.ofList (r.toText.toList.dropWhile (· ≠ '\n')))

end LogRecord

/-- The place where records are shown. -/
structure Logger where
  name : String
  threshold : Int
  handlers : Nat
deriving DecidableEq, Repr

namespace Logger

/-- A logger that shows nothing yet. -/
def unconfigured : Logger := ⟨"plonkdsl", 0, 0⟩

/-- Sets the threshold. The handler that writes the records is added only the first time. -/
def configure (l : Logger) (threshold : Int) : Logger :=
  { l with threshold := threshold, handlers := max 1 l.handlers }

/-- Whether a record is shown. -/
def shows (l : Logger) (r : LogRecord) : Bool := l.threshold ≤ r.level.severity

end Logger

end PlonkGates
