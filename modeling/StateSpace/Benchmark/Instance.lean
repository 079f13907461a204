import StateSpace.Decimal.Numeral
import StateSpace.Keyed
import StateSpace.Problems.Doubling
import StateSpace.Problems.Flood.Seeded
import StateSpace.Problems.Grid
import StateSpace.Problems.Romania
import StateSpace.Settings

/-!
The named problems that strategies are compared on, and the sizes that the environment may choose
for them.
-/
namespace StateSpace.Benchmark

structure Sizes where
  goal : Int
  limit : Int
  boardSize : Int
  colors : Int
  seed : Int
  deriving DecidableEq

/-- A variable's text that is no integer. -/
structure SizeError where
  text : String
  cause : Decimal.IntegerError
  deriving DecidableEq

def SizeError.message (e : SizeError) : String := e.cause.message e.text

def sizeOf (env : Environment) (name : String) (fallback : Int) : Except SizeError Int :=
  match env.lookup name with
  | none => .ok fallback
  | some text =>
      match Decimal.integer text with
      | .ok n => .ok n
      | .error cause => .error { text, cause }

def Sizes.ofEnvironment (env : Environment) : Except SizeError Sizes := do
  let goal ← sizeOf env "NUMBERS_GOAL" 10
  let limit ← sizeOf env "NUMBERS_LIMIT" 64
  let boardSize ← sizeOf env "FLOOD_SIZE" 5
  let colors ← sizeOf env "FLOOD_COLORS" 4
  let seed ← sizeOf env "FLOOD_SEED" 7
  .ok { goal, limit, boardSize, colors, seed }

/-- A problem over states of some type that can be written as values. -/
structure Instance where
  State : Type
  keyed : Keyed State
  problem : Problem State Int
  toValue : State → Value

def Instance.of {σ : Type} [Keyed σ] (problem : Problem σ Int) (toValue : σ → Value) : Instance :=
  { State := σ, keyed := inferInstance, problem, toValue }

def boardValue (b : Flood.Board) : Value := .list (b.toRows.map fun row => .list (row.map .int))

/-- The named problems, in the order in which they are offered. -/
inductive Topic where
  | numbers
  | grid
  | romania
  | flood
  deriving DecidableEq

namespace Topic

def all : List Topic := [.numbers, .grid, .romania, .flood]

def name : Topic → String
  | .numbers => "numbers"
  | .grid => "grid"
  | .romania => "romania"
  | .flood => "flood"

def ofName? (name : String) : Option Topic := all.find? fun t => t.name == name

/-- The problem of a topic; only a drawn board can fail to be made. -/
def load (sizes : Sizes) : Topic → Except Flood.DrawError Instance
  | .numbers => .ok (.of (Doubling.problem 1 sizes.goal (some sizes.limit)) .int)
  | .grid => .ok (.of Grid.sample Grid.Cell.toValue)
  | .romania => .ok (.of (Romania.problem "Arad" "Bucharest") .text)
  | .flood =>
      match Flood.drawProblem sizes.boardSize sizes.boardSize sizes.colors sizes.seed with
      | .ok problem => .ok (.of problem boardValue)
      | .error e => .error e

end Topic

end StateSpace.Benchmark
