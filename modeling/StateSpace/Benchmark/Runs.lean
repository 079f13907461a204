import StateSpace.Benchmark.Request
import StateSpace.Directories
import StateSpace.Host
import StateSpace.Json.Writer
import StateSpace.Outcome
import StateSpace.Search.Report

/-!
A benchmark: every strategy asked for runs on one problem, a line is printed for each run, and the
rows of all runs are kept in one document.
-/
namespace StateSpace.Benchmark

/-- A strategy beside the discipline it runs with. -/
abbrev Pairing := Strategy × Discipline

/-- The disciplines a strategy runs with: the one asked for, else batch, and global as well where it
matters. -/
def pairingsOf (discipline : Option Discipline) (s : Strategy) : List Pairing :=
  match discipline with
  | some d => [(s, d)]
  | none => if s.isInformed then [(s, .batch), (s, .global)] else [(s, .batch)]

def pairings (strategies : List Strategy) (discipline : Option Discipline) : List Pairing :=
  strategies.flatMap (pairingsOf discipline)

/-- More turns than any run that ends will take. -/
def turns : Nat := tenPow 18

/-- A run's outcome and the log of its search. -/
structure Attempt where
  outcome : Outcome Value
  reports : List (Severity × String)

/-- Runs one pairing on a problem; a run that breaks off has no outcome. -/
def Instance.attempt (i : Instance) (p : Pairing) : Option Attempt :=
  letI := i.keyed
  let plan : Plan i.State Int := { problem := i.problem, strategy := p.1, discipline := p.2 }
  match Search.fresh.run plan turns with
  | .ended s =>
      some
        { outcome := (s.outcome plan .null).map i.toValue
          reports := s.reports p.1 }
  | _ => none

/-- A number of seconds with four places; what is no number has none. -/
def timeText (v : Value) : Except Results.ShowError String :=
  let seconds :=
    match v with
    | .text s => (Decimal.real? s).map .real
    | v => Number.ofValue? v
  match seconds with
  | none => .ok "n/a"
  | some n => (Results.toReal n).map (Decimal.fixed 4)

/-- The line printed for a run. -/
def line (o : Outcome Value) : String :=
  let verdict := if o.isSuccess then "OK" else "FAIL"
  let time := (timeText o.seconds.toValue).toOption.getD "n/a"
  "  " ++ o.name.plain ++ s!": {verdict} cost=" ++ o.cost.plain ++
    s!" steps={o.steps} expanded={o.expansions} passes={o.passes}, time={time}s"

def contender (o : Outcome Value) : Results.Contender :=
  { name := o.name
    isSuccess := o.isSuccess
    cost := o.cost
    expansions := .int o.expansions
    seconds := o.seconds.toValue
    peakKb := .int o.peakKb }

/-- The document that keeps the rows of all runs. -/
def document (problem : String) (outcomes : List (Outcome Value)) (stamp : Number) : Value :=
  .record
    [ ("problem", .text problem), ("results", .list (outcomes.map Outcome.toRow)),
      ("ts", stamp.toValue) ]

/-- Why a benchmark breaks off. -/
inductive BenchmarkError where
  | request (e : RequestError)
  | noProblem
  | noDirectory
  | badPath (d : DirPath.Defect)
  | unknownProblem (name : String)
  | draw (e : Flood.DrawError)
  | brokenOff (p : Pairing)
  | chart (e : Results.ShowError)
  deriving DecidableEq

def BenchmarkError.message : BenchmarkError → Option String
  | .request e => e.message
  | .unknownProblem name =>
      some ("Unknown problem " ++ Text.quoted name ++ ". Available: " ++
        ", ".intercalate (Topic.all.map Topic.name))
  | .draw e => e.message
  | .badPath d => d.message
  | _ => none

def loadInstance (sizes : Sizes) (name : String) : Except BenchmarkError Instance :=
  match Topic.ofName? name with
  | none => .error (.unknownProblem name)
  | some topic =>
      match topic.load sizes with
      | .ok i => .ok i
      | .error e => .error (.draw e)

section

variable {m : Type → Type} [Monad m]

/-- Keeps a log record that the logger lets through. -/
def logTo (host : Host m) (logger : Logger) (r : LogRecord) : ExceptT BenchmarkError m Unit :=
  if logger.passes r.severity then host.log r else pure ()

/-- Runs one pairing: announced in the log, timed, and printed. -/
def runPairing (host : Host m) (logger : Logger) (problem : String) (i : Instance) (p : Pairing) :
    ExceptT BenchmarkError m (Outcome Value) := do
  let opening := s!"running {p.1.name} ({p.2.value}) on {problem}"
  logTo host logger { severity := .info, source := .benchmark, text := opening }
  let (attempt, reading) ← host.measure fun _ => i.attempt p
  match attempt with
  | none => throw (.brokenOff p)
  | some attempt =>
      attempt.reports.forM fun (severity, text) =>
        logTo host logger { severity, source := .search, text }
      let outcome :=
        { attempt.outcome with seconds := reading.seconds, peakKb := reading.peakKb }
      host.print (line outcome)
      pure outcome

/-- Runs all pairings on a problem. -/
def runAll (host : Host m) (sizes : Sizes) (r : Request) (logger : Logger) (problem : String) :
    ExceptT BenchmarkError m (List (Outcome Value)) :=
  match loadInstance sizes problem with
  | .error e => throw e
  | .ok i => (pairings r.strategies r.discipline).mapM (runPairing host logger problem i)

/-- Goes on with what was made of a path, if anything could be. -/
def orBadPath {α : Type} (made : Except DirPath.Defect α) : ExceptT BenchmarkError m α :=
  match made with
  | .error d => throw (.badPath d)
  | .ok a => pure a

/-- Draws the runs side by side. -/
def drawComparison (host : Host m) (there : Directories) (dir : DirPath) (problem : String)
    (outcomes : List (Outcome Value)) : ExceptT BenchmarkError m Unit := do
  let title := s!"GPS strategies on {problem}"
  match Results.comparison (.text title) (outcomes.map contender) with
  | .error e => throw (.chart e)
  | .ok chart =>
      let file := dir.entry "comparison.png"
      orBadPath (there.checkFile file)
      host.draw file (.comparison chart)
      host.print s!"Wrote {file.text}"

/-- Keeps the rows of all runs in a directory, and a chart of them where it is wanted. -/
def keep (host : Host m) (there : Directories) (dir : DirPath) (wantsPlot : Bool)
    (problem : String) (outcomes : List (Outcome Value)) : ExceptT BenchmarkError m Unit := do
  let stamp ← host.now
  let file := dir.entry "results.json"
  orBadPath (there.checkFile file)
  host.write file (Json.write (.indented 2) (document problem outcomes stamp))
  host.print s!"Wrote {file.text}"
  if wantsPlot then drawComparison host there dir problem outcomes

/-- Carries out a request where there are some directories already; the answer is the outcome of
every run. A missing name is shown as an empty list. -/
def carryOut (host : Host m) (there : Directories) (sizes : Sizes) (r : Request) :
    ExceptT BenchmarkError m (List (Outcome Value)) := do
  let logger := Logger.new.configure (some r.level)
  match r.problem with
  | none => do
      host.print "→ Problem: []"
      throw .noProblem
  | some problem => do
      host.print s!"→ Problem: {problem}"
      let outcomes ← runAll host sizes r logger problem
      match r.out with
      | none => throw .noDirectory
      | some dir =>
          let there ← orBadPath (there.makeAll dir)
          keep host there dir r.wantsPlot problem outcomes
          pure outcomes

/-- The benchmark that an environment and the words of a command line ask for. What is kept without
a directory for it is kept in the fallback, which is there. -/
def command (host : Host m) (env : Environment) (fallback : DirPath) (words : List String) :
    ExceptT BenchmarkError m (List (Outcome Value)) := do
  match readRequest env fallback words with
  | .error e => throw (.request e)
  | .ok (sizes, request) => carryOut host (.above fallback) sizes request

end

end StateSpace.Benchmark
