import StateSpace.LogLevel
import StateSpace.Results.Chart

/-!
What a command asks of its surroundings: to print, to keep log records and files, to draw charts and
to time its work. Commands are written for any host; a transcript is the host that only notes down
what it is asked for.
-/
namespace StateSpace

/-- The parts of the program that keep a log. -/
inductive LogSource where
  | benchmark
  | search
  deriving DecidableEq

structure LogRecord where
  severity : Severity
  source : LogSource
  text : String
  deriving DecidableEq

/-- What a stretch of work took. -/
structure Reading where
  seconds : Number
  peakKb : Int
  deriving DecidableEq

structure Host (m : Type → Type) where
  print : String → m Unit
  log : LogRecord → m Unit
  write : DirPath → String → m Unit
  draw : DirPath → Results.Chart → m Unit
  measure : {α : Type} → (Unit → α) → m (α × Reading)
  now : m Number

/-- What was asked for so far, the latest first. -/
structure Transcript where
  lines : List String
  records : List LogRecord
  files : List (DirPath × String)

namespace Transcript

def empty : Transcript := ⟨[], [], []⟩

/-- The printed lines, each with its end. -/
def output (t : Transcript) : String := String.join (t.lines.reverse.map (· ++ "\n"))

/-- The content that stands for a drawn chart. -/
def drawing : String := "PNG"

def store (file : DirPath) (content : String) : StateM Transcript Unit :=
  modify fun t => { t with files := (file, content) :: t.files }

/-- The host that notes down; on it no time passes. -/
def host : Host (StateM Transcript) :=
  { print := fun line => modify fun t => { t with lines := line :: t.lines }
    log := fun r => modify fun t => { t with records := r :: t.records }
    write := store
    draw := fun file _ => store file drawing
    measure := fun work => pure (work (), { seconds := 0, peakKb := 0 })
    now := pure 0 }

end Transcript

end StateSpace
