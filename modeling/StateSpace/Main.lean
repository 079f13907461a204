import StateSpace.Benchmark.Runs
import StateSpace.Results.Gallery

/-!
The program: `bench` compares strategies on one problem, `plot` turns the results into a table and
charts. Both take their options from the words that follow and their defaults from the environment.
-/
namespace StateSpace.Main

/-- Where results are kept when nothing else is asked for. -/
def defaultDir : DirPath := .ofText "benchmarks"

/-- The variables that the program looks at. -/
def variableNames : List String :=
  [ "GPS_STRATEGY", "GPS_ORDERING", "GPS_PROBLEM", "GPS_LOG_LEVEL", "GPS_RESULTS_DIR",
    "NUMBERS_GOAL", "NUMBERS_LIMIT", "FLOOD_SIZE", "FLOOD_COLORS", "FLOOD_SEED" ]

def environment : IO Environment :=
  variableNames.filterMapM fun name => do
    return (← IO.getEnv name).map fun text => (name, Text.ofWhole text)

def sourceName : LogSource → String
  | .benchmark => "benchmark"
  | .search => "search"

/-- Writes a file and the directories that lead to it. -/
def store (file : DirPath) (content : String) : IO Unit := do
  let dir : DirPath := { file with parts := file.parts.dropLast }
  IO.FS.createDirAll (Text.toWhole dir.text)
  IO.FS.writeFile (Text.toWhole file.text) (Text.toWhole content)

def nanoseconds (n : Nat) : Number := .real (Binary64.ofRatio false n (tenPow 9))

/-- The host that acts. Times are those of a clock that only runs forward, memory is not traced,
and a chart's file only marks its place. -/
def host : Host IO :=
  { print := fun line => IO.println (Text.toWhole line)
    log := fun r =>
      IO.eprintln (Text.toWhole s!"{r.severity.name} {sourceName r.source}: {r.text}")
    write := store
    draw := fun file _ => store file Transcript.drawing
    measure := fun work => do
      let start ← IO.monoNanosNow
      let result ← IO.lazyPure work
      let stop ← IO.monoNanosNow
      return (result, { seconds := nanoseconds (stop - start), peakKb := 0 })
    now := return nanoseconds (← IO.monoNanosNow) }

/-- Says what went wrong and gives the exit code for it. -/
def refuse (code : UInt32) (message : Option String) : IO UInt32 := do
  let text := message.getD "the command broke off"
  IO.eprintln (Text.toWhole s!"error: {text}")
  return code

def bench (words : List String) : IO UInt32 := do
  match ← (Benchmark.command host (← environment) defaultDir words).run with
  | .ok _ => return 0
  | .error (.request .help) => return 0
  | .error (.request e) => refuse 2 e.message
  | .error e => refuse 1 e.message

/-- The text of a file, if it can be read. -/
def contentOf (file : DirPath) : IO (Option String) := do
  match ← (IO.FS.readFile (Text.toWhole file.text)).toBaseIO with
  | .ok text => return some (Text.ofWhole text)
  | .error _ => return none

def plot (words : List String) : IO UInt32 := do
  match Results.galleryDir (← environment) defaultDir words with
  | .error .help => return 0
  | .error (.usage e) => refuse 2 (some e.message)
  | .ok dir =>
      let document ← contentOf (dir.entry Results.documentName)
      match ← (Results.gallery host dir document).run with
      | .ok _ => return 0
      | .error e => refuse 1 e.message

end StateSpace.Main

def main (words : List String) : IO UInt32 :=
  match words.map StateSpace.Text.ofWhole with
  | "bench" :: rest => StateSpace.Main.bench rest
  | "plot" :: rest => StateSpace.Main.plot rest
  | _ => StateSpace.Main.refuse 2 (some "expected one of: bench, plot")
