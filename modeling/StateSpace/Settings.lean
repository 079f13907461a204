import StateSpace.DirPath
import StateSpace.Environment
import StateSpace.Strategy

/-!
Defaults of the command line, taken from named variables. A variable may hold any value; only texts
are of use, but for a name that is shown where it is refused.
-/
namespace StateSpace

/-- Without a strategy all are meant; without a discipline both; without a directory the one that
results are kept in by default. -/
structure Settings where
  strategy : Option Strategy
  discipline : Option Discipline
  problem : String
  logLevel : String
  resultsDir : Option DirPath
  deriving DecidableEq

/-- Why variables give no settings. -/
inductive SettingsError where
  | name (e : NameError)
  | noText
  | noPath
  deriving DecidableEq

def SettingsError.message : SettingsError → Option String
  | .name e => some e.message
  | _ => none

namespace Settings

def default : Settings :=
  { strategy := none, discipline := none, problem := "romania", logLevel := "WARNING",
    resultsDir := none }

/-- The variable that names the directory for results. -/
def dirVariable : String := "GPS_RESULTS_DIR"

/-- The directory for results, when the variables name one. -/
def resultsDirOf (env : List (String × Value)) : Except SettingsError (Option DirPath) :=
  match env.lookup dirVariable with
  | none => .ok none
  | some (.text dir) => .ok (some (.ofText dir))
  | some _ => .error .noPath

/-- What a variable stands for; one that does not count as true counts as not set. -/
def parseSet {α : Type} (parse : Value → Except NameError α) (given : Option Value) :
    Except SettingsError (Option α) :=
  match given with
  | none => .ok none
  | some v => if v.isTruthy then ((parse v).map some).mapError .name else .ok none

def textOr (fallback : String) (given : Option Value) : Except SettingsError String :=
  match given with
  | none => .ok fallback
  | some (.text s) => .ok s
  | some _ => .error .noText

def ofValues (env : List (String × Value)) : Except SettingsError Settings := do
  let strategy ← parseSet Strategy.parse (env.lookup "GPS_STRATEGY")
  let discipline ← parseSet Discipline.parse (env.lookup "GPS_ORDERING")
  let problem ← textOr default.problem (env.lookup "GPS_PROBLEM")
  let logLevel ← textOr default.logLevel (env.lookup "GPS_LOG_LEVEL")
  let resultsDir ← resultsDirOf env
  .ok
    { strategy, discipline, problem := Text.lower (Text.strip problem),
      logLevel := Text.upper (Text.strip logLevel), resultsDir }

def ofEnvironment (env : Environment) : Except SettingsError Settings := ofValues env.toValues

end Settings

end StateSpace
