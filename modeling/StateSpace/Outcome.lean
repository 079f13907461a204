import StateSpace.Number
import StateSpace.Search

/-!
The outcome of one run: what was found, at what cost, and what it took.
-/
namespace StateSpace

/-- Names stand as they were given, and the cost as it was found. -/
structure Outcome (σ : Type) where
  name : Value
  isSuccess : Bool
  actions : List Value
  cost : Value
  expansions : Int
  seconds : Number
  peakKb : Int
  error : Option String
  path : List σ
  passes : Int

namespace Outcome

variable {σ : Type}

def steps (o : Outcome σ) : Nat := o.actions.length

/-- The outcome with its states written differently. -/
def map {τ : Type} (f : σ → τ) (o : Outcome σ) : Outcome τ := { o with path := o.path.map f }

def textOrNull : Option String → Value
  | none => .null
  | some s => .text s

/-- The flat record of an outcome; a failure has no cost. -/
def toRow (o : Outcome σ) : Value :=
  .record
    [ ("algo", o.name),
      ("success", .bool o.isSuccess),
      ("cost", if o.isSuccess then o.cost else .null),
      ("steps", .int o.steps),
      ("nodes_expanded", .int o.expansions),
      ("passes", .int o.passes),
      ("time_s", o.seconds.toValue),
      ("peak_kb", .int o.peakKb),
      ("error", textOrNull o.error) ]

end Outcome

section

variable {σ κ : Type} [Keyed σ] [Quantity κ]

/-- The outcome at the end of a run, under the name given if that counts as true, else under the
plan's label. -/
def Search.outcome (plan : Plan σ κ) (name : Value) (s : Search σ κ) : Outcome σ :=
  let name := if name.isTruthy then name else .text (plan.strategy.label plan.discipline)
  let base : Outcome σ :=
    { name, isSuccess := false, actions := [], cost := .real Binary64.infinity,
      expansions := s.expansions, seconds := .real Binary64.zero, peakKb := 0, error := none,
      path := [], passes := s.passes }
  match s.isFailed, s.solution with
  | false, some n =>
      { base with
        isSuccess := true
        actions := n.actions
        cost := Quantity.toValue n.cost
        path := n.states }
  | _, _ => base

/-- A run of at most `turns` turns and its outcome; a run that is cut off has none. -/
def solve (plan : Plan σ κ) (name : Value) (start : Search σ κ) (turns : Nat) :
    Except (Fault σ) (Outcome σ) :=
  match start.run plan turns with
  | .ended s => .ok (s.outcome plan name)
  | .broken _ fault => .error fault
  | .running _ => .error .exhausted

end

end StateSpace
