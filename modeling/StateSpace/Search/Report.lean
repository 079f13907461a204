import StateSpace.LogLevel
import StateSpace.Search

/-!
What a search reports of its passes and its end.
-/
namespace StateSpace

def boundText (bound : Value) : String :=
  if bound.equals (.int unbounded) then "unbounded" else bound.plain

def truthText (b : Bool) : String := if b then "True" else "False"

/-- The log record of an event, for those that have one. -/
def Event.report {σ κ : Type} [Quantity κ] (strategy : Strategy) :
    Event σ κ → Option (Severity × String)
  | .passBegan pass bound =>
      let depth := boundText (Quantity.toValue bound)
      some (.debug, s!"pass {pass} starting (max depth {depth})")
  | .goalReached pass depth expansions waiting peak =>
      some (.debug,
        s!"pass {pass}: goal at depth {depth} after {expansions} expansions, " ++
          s!"frontier {waiting} (peak {peak})")
  | .drained pass expansions closed peak boundHit =>
      some (.debug,
        s!"pass {pass} drained: {expansions} expansions, {closed} closed states, " ++
          s!"peak frontier {peak}, bound hit: {truthText boundHit}")
  | .concluded none expansions passes =>
      some (.info, s!"{strategy.name} failed after {expansions} expansions ({passes} passes)")
  | .concluded (some cost) expansions passes =>
      let cost := (Quantity.toValue cost).plain
      some (.info,
        s!"{strategy.name} found a solution at cost {cost} after {expansions} expansions " ++
          s!"({passes} passes)")
  | _ => none

/-- The log records of a search, in order. -/
def Search.reports {σ κ : Type} [Keyed σ] [Quantity κ] (s : Search σ κ) (strategy : Strategy) :
    List (Severity × String) :=
  s.history.reverse.filterMap (·.report strategy)

end StateSpace
