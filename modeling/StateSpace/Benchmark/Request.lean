import StateSpace.Benchmark.Instance
import StateSpace.CommandLine
import StateSpace.LogLevel

/-!
What a benchmark is asked for: by the words of its command line first, by the environment second.
-/
namespace StateSpace.Benchmark

inductive Key where
  | help
  | problem
  | strategies
  | ordering
  | out
  | plot
  | logLevel
  deriving DecidableEq

/-- The names of the topics in alphabetical order, as they are offered as choices. -/
def choices : List String := ["flood", "grid", "numbers", "romania"]

def options : List (CommandLine.Declared Key) :=
  [ ⟨.help, ["-h", "--help"], .halt, []⟩,
    ⟨.problem, ["--problem"], .one, choices⟩,
    ⟨.strategies, ["--strategies"], .many, []⟩,
    ⟨.ordering, ["--ordering"], .one, Discipline.all.map Discipline.value⟩,
    ⟨.out, ["--out"], .one, []⟩,
    ⟨.plot, ["--plot"], .flag, []⟩,
    ⟨.logLevel, ["--log-level"], .one, []⟩ ]

/-- What is asked for. The name of the problem and the directory may be missing, as an option may be
left without its value. -/
structure Request where
  problem : Option String
  strategies : List Strategy
  discipline : Option Discipline
  out : Option DirPath
  wantsPlot : Bool
  level : Int
  deriving DecidableEq

/-- Why there is no request to carry out. -/
inductive RequestError where
  | size (e : SizeError)
  | setting (e : SettingsError)
  | help
  | usage (e : CommandLine.UsageError)
  | level (e : LogLevel.LevelError)
  | strategy (e : NameError)
  deriving DecidableEq

def RequestError.message : RequestError → Option String
  | .size e => some e.message
  | .setting e => e.message
  | .help => none
  | .usage e => some e.message
  | .level e => e.message
  | .strategy e => some e.message

def orElse {ε α : Type} (wrap : ε → RequestError) : Except ε α → Except RequestError α
  | .ok a => .ok a
  | .error e => .error (wrap e)

def stopped : CommandLine.Stop → RequestError
  | .help => .help
  | .usage e => .usage e

/-- The one value of an option that takes one, if the option is given; it may be left without. -/
def single? (key : Key) (given : List (CommandLine.Given Key)) : Option (Option String) :=
  (CommandLine.last? key given).map List.head?

/-- The level that the last option for it asks for, else that of the settings. -/
def levelOf (settings : Settings) (given : Option (Option String)) :
    Except LogLevel.LevelError Int :=
  match given with
  | none => LogLevel.ofName settings.logLevel
  | some none => .error .noLevel
  | some (some name) => LogLevel.ofName name

/-- The request that words and settings make together. The log level is judged before the names of
the strategies. -/
def Request.ofWords (settings : Settings) (fallback : DirPath) (words : List String) :
    Except RequestError Request := do
  let given ← orElse stopped (CommandLine.read options words)
  let level ← orElse .level (levelOf settings (single? .logLevel given))
  let strategies ←
    match CommandLine.last? .strategies given, settings.strategy with
    | some names, _ =>
        orElse .strategy (names.mapM fun name => Strategy.parse (.text name))
    | none, some s => .ok [s]
    | none, none => .ok Strategy.all
  let discipline :=
    match single? .ordering given with
    | some name => name.bind Discipline.ofName?
    | none => settings.discipline
  let out :=
    match single? .out given with
    | some dir => dir.map DirPath.ofText
    | none => some (settings.resultsDir.getD fallback)
  .ok
    { problem := (single? .problem given).getD settings.problem
      strategies, discipline, out
      wantsPlot := (CommandLine.last? .plot given).isSome
      level }

/-- The sizes and the request of an environment and the words of a command line. -/
def readRequest (env : Environment) (fallback : DirPath) (words : List String) :
    Except RequestError (Sizes × Request) := do
  let sizes ← orElse .size (Sizes.ofEnvironment env)
  let settings ← orElse .setting (Settings.ofEnvironment env)
  let request ← Request.ofWords settings fallback words
  .ok (sizes, request)

end StateSpace.Benchmark
