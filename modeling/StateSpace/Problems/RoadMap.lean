import StateSpace.Display
import StateSpace.Problem
import StateSpace.Value.Key

/-!
Route finding on a road map. There is one rule per place, which drives there where a road leads
there; estimates are known for routes to one place only, the hub.
-/
namespace StateSpace

structure RoadMap where
  /-- The places with the roads that leave them, and the lengths of these. -/
  roads : List (String × List (String × Int))
  hub : String
  toHub : List (String × Int)

namespace RoadMap

def ruleName (target : String) : Value := .text ("go(" ++ target ++ ")")

/-- The length of the road between two places. -/
def road? (m : RoadMap) (source target : String) : Option Int :=
  (m.roads.lookup source).bind (·.lookup target)

def driveTo (m : RoadMap) (target : String) : Rule String :=
  { name := ruleName target
    apply := fun source =>
      match m.road? source target with
      | none => .blocked
      | some length => .leads target (.int length) }

def estimate (m : RoadMap) (goal place : String) : Option Int :=
  if goal = m.hub then m.toHub.lookup place else none

def problem (m : RoadMap) (start goal : String) : Problem String Int :=
  { initial := start
    isGoal := fun place => place == goal
    rules := m.roads.map fun (place, _) => m.driveTo place
    heuristic := some fun place => .ok (m.estimate goal place) }

/-! ### Over values -/

/-- What a record keeps under a name that may be any value, if it keeps anything there. -/
def entryOr (otherwise record name : Value) : Except Defect Value :=
  match record with
  | .record fields =>
      if name.isKey then
        match name with
        | .text name => .ok ((fields.lookup name).getD otherwise)
        | _ => .ok otherwise
      else .error .wrongKind
  | _ => .error .noFields

/-- The length of the road between two places, null where there is none. -/
def roadOver (graph source target : Value) : Except Defect Value := do
  let next ← entryOr (.record []) graph source
  entryOr .null next target

def driveOver (graph target : Value) : Rule Value :=
  { name := ruleName target.plain
    apply := fun source =>
      match roadOver graph source target with
      | .error d => .broken d
      | .ok .null => .blocked
      | .ok length => .leads target length }

def estimateOver (hub toHub goal place : Value) : Except Defect (Option Value) := do
  if !goal.equals hub then .ok none
  else
    let found ← entryOr .null toHub place
    .ok (if found = .null then none else some found)

/-- The problem on a map that is written down: a record of the roads that leave each place, by name,
and a record of the estimates. -/
def problemOver (hub graph toHub start goal : Value) : Except Defect (Problem Value Value) :=
  match graph.items? with
  | none => .error .wrongKind
  | some places =>
      .ok
        { initial := start
          isGoal := fun place => place.equals goal
          rules := places.map (driveOver graph)
          heuristic := some (estimateOver hub toHub goal) }

/-- The roads of a map as they are written down. -/
def writtenRoads (m : RoadMap) : Value :=
  .record (m.roads.map fun (place, next) =>
    (place, .record (next.map fun (other, length) => (other, .int length))))

/-- The estimates of a map as they are written down. -/
def writtenEstimates (m : RoadMap) : Value :=
  .record (m.toHub.map fun (place, length) => (place, .int length))

end RoadMap

end StateSpace
