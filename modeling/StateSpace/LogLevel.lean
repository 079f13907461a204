import StateSpace.Value
import StateSpace.Text.Case
import StateSpace.Text.Quoted

/-!
Severities of log records, their numbers and names, and a logger whose level is set once.
-/
namespace StateSpace

inductive Severity where
  | debug
  | info
  deriving DecidableEq

def Severity.name : Severity → String
  | .debug => "DEBUG"
  | .info => "INFO"

def Severity.number : Severity → Int
  | .debug => 10
  | .info => 20

namespace LogLevel

/-- The levels that have names; a record passes a level that its severity reaches. -/
def named : List (String × Int) :=
  [ ("CRITICAL", 50), ("FATAL", 50), ("ERROR", 40), ("WARN", 30), ("WARNING", 30), ("INFO", 20),
    ("DEBUG", 10), ("NOTSET", 0) ]

/-- Why something asks for no level. -/
inductive LevelError where
  | unknownName (given : String)
  | noLevel
  deriving DecidableEq

def LevelError.message : LevelError → Option String
  | .unknownName given => some ("Unknown log level: " ++ Text.quoted given)
  | .noLevel => none

/-- The level of a name, in any case. -/
def ofName (name : String) : Except LevelError Int :=
  match named.lookup (Text.upper name) with
  | some level => .ok level
  | none => .error (.unknownName name)

/-- The level that a value asks for; null leaves the choice open. -/
def ofValue : Value → Except LevelError (Option Int)
  | .text name => (ofName name).map some
  | .int n => .ok (some n)
  | .bool b => .ok (some (if b then 1 else 0))
  | .null => .ok none
  | _ => .error .noLevel

/-- The level before any is chosen, a warning's. -/
def initial : Int := 30

end LogLevel

/-- A logger; the first level it is given stays, and is shown as it was given. -/
structure Logger where
  level : Int
  shown : Value
  isConfigured : Bool
  deriving DecidableEq

namespace Logger

def new : Logger :=
  { level := LogLevel.initial, shown := .int LogLevel.initial, isConfigured := false }

/-- Configures a logger that is not configured yet; without a level it keeps its own. -/
def configure (l : Logger) (level : Option Int) : Logger :=
  if l.isConfigured then l
  else
    let level := level.getD l.level
    { level, shown := .int level, isConfigured := true }

/-- Configures a logger with the level that a value stands for; a truth value is shown as such. -/
def configureAs (l : Logger) (v : Value) (level : Option Int) : Logger :=
  match v with
  | .bool _ => if l.isConfigured then l else { l.configure level with shown := v }
  | _ => l.configure level

/-- Gives a logger the level that a value asks for. A value that is no level configures it all the
same, and goes unnoticed if it was configured before. -/
def request (l : Logger) (v : Value) : Except LogLevel.LevelError Unit × Logger :=
  match LogLevel.ofValue v with
  | .ok level => (.ok (), l.configureAs v level)
  | .error .noLevel => (if l.isConfigured then .ok () else .error .noLevel, l.configure none)
  | .error e => (.error e, l)

def passes (l : Logger) (s : Severity) : Bool := l.level ≤ s.number

end Logger

end StateSpace
