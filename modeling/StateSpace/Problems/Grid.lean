import StateSpace.Problem
import StateSpace.Value.Key

/-!
Finding a way on a grid with walls by steps to the four neighbours, at one unit of cost each.
-/
namespace StateSpace.Grid

abbrev Cell := Int × Int

structure Map where
  rows : Int
  cols : Int
  walls : List Cell

/-- Whether a cell lies on the map and is no wall. -/
def Map.isOpen (m : Map) (c : Cell) : Bool :=
  0 ≤ c.1 && c.1 < m.rows && 0 ≤ c.2 && c.2 < m.cols && !m.walls.contains c

def directions : List (String × Cell) :=
  [("Up", (-1, 0)), ("Down", (1, 0)), ("Left", (0, -1)), ("Right", (0, 1))]

/-- A step by the given offset, onto open cells only. -/
def Map.step (m : Map) (offset : Cell) (c : Cell) : Option Cell :=
  let next := (c.1 + offset.1, c.2 + offset.2)
  if m.isOpen next then some next else none

/-- The sum of the row and column distances. -/
def distance (a b : Cell) : Int := (a.1 - b.1).natAbs + (a.2 - b.2).natAbs

def Map.rules (m : Map) : List (Rule Cell) :=
  directions.map fun (name, offset) => Rule.unit name (m.step offset)

def problem (m : Map) (start goal : Cell) : Problem Cell Int :=
  { initial := start
    isGoal := fun c => c == goal
    rules := m.rules
    heuristic := some fun c => .ok (some (distance c goal)) }

/-- A map of five rows and seven columns with a few walls. -/
def sampleMap : Map :=
  { rows := 5, cols := 7, walls := [(1, 3), (2, 3), (3, 3), (3, 4)] }

/-- From corner to corner of the sample map. -/
def sample : Problem Cell Int := problem sampleMap (0, 0) (4, 6)

/-! ### Over values -/

def Cell.toValue (c : Cell) : Value := .tuple [.int c.1, .int c.2]

/-- The two coordinates that a value holds. -/
def coordinatesOf (v : Value) : Except Defect (Value × Value) :=
  match v.items? with
  | none => .error .wrongKind
  | some [row, col] => .ok (row, col)
  | some others => .error (if others.length < 2 then .tooFew others.length else .tooMany)

/-- How far apart two coordinates are. -/
def gap (a b : Value) : Except Defect Value := do (← a.minus b).magnitude

/-- The distance between values; both are taken apart before any coordinate is looked at. -/
def distanceOver (goal v : Value) : Except Defect (Option Value) := do
  let source ← coordinatesOf v
  let target ← coordinatesOf goal
  let rows ← gap source.1 target.1
  let cols ← gap source.2 target.2
  .ok (some (← rows.plus cols))

/-- Whether a coordinate lies from zero up to, and without, an extent. -/
def isWithin (extent coordinate : Value) : Except Defect Bool := do
  if ← Value.isAtMost (.int 0) coordinate then Value.isBelow coordinate extent else .ok false

/-- A step by the given offset. The row is judged before the column, and the walls come last. -/
def stepOver (rows cols : Value) (walls : List Value) (offset : Cell) (v : Value) :
    Except Defect (Option Value) := do
  let source ← coordinatesOf v
  let row ← source.1.plus (.int offset.1)
  let col ← source.2.plus (.int offset.2)
  if !(← isWithin rows row) then .ok none
  else if !(← isWithin cols col) then .ok none
  else
    let next := Value.tuple [row, col]
    .ok (if walls.any next.sameSize then none else some next)

/-- The same problem, where extents, start, goal and walls may be any values. There are no walls
that cannot be looked up. -/
def problemOver (rows cols : Value) (walls : List Value) (start goal : Value) :
    Except Defect (Problem Value Value) :=
  if walls.all Value.isKey then
    .ok
      { initial := start
        isGoal := fun v => v.equals goal
        rules := directions.map fun (name, offset) =>
          Rule.checked (.text name) (.int 1) (stepOver rows cols walls offset)
        heuristic := some (distanceOver goal) }
  else .error .wrongKind

/-- The sample, where a state may be any value. -/
def sampleOver : Except Defect (Problem Value Value) :=
  problemOver (.int sampleMap.rows) (.int sampleMap.cols) (sampleMap.walls.map Cell.toValue)
    (Cell.toValue (0, 0)) (Cell.toValue (4, 6))

end StateSpace.Grid
