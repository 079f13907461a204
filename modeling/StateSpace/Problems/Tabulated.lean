import StateSpace.Display
import StateSpace.Problem

/-!
Problems written down as data: edges between states, tables of transitions, and arithmetic moves,
with a table or a distance as the estimate.
-/
namespace StateSpace.Tabulated

/-- An arithmetic move `n * factor + offset` as it is written down, where the argument meets a
congruence and the result a range. The range and the congruence may be missing. -/
structure Arithmetic where
  factor : Value
  offset : Value
  low : Option Value
  high : Option Value
  modulus : Option Value
  residue : Value

/-- Whether the argument meets the congruence; there is none with modulus zero. -/
def Arithmetic.admits (a : Arithmetic) (v : Value) : Except Defect Bool :=
  match a.modulus with
  | none => .ok true
  | some modulus => do .ok ((← v.modulo modulus).equals a.residue)

def Arithmetic.isTooLow (a : Arithmetic) (v : Value) : Except Defect Bool :=
  match a.low with
  | none => .ok false
  | some low => v.isBelow low

def Arithmetic.isTooHigh (a : Arithmetic) (v : Value) : Except Defect Bool :=
  match a.high with
  | none => .ok false
  | some high => high.isBelow v

/-- The next state, if there is one. -/
def Arithmetic.next (a : Arithmetic) (v : Value) : Except Defect (Option Value) := do
  if !(← a.admits v) then .ok none
  else
    let image ← (← v.times a.factor).plus a.offset
    if ← a.isTooLow image then .ok none
    else if ← a.isTooHigh image then .ok none
    else .ok (some image)

inductive Transition where
  | pairs (table : List (Value × Value))
  | arithmetic (move : Arithmetic)

/-- What stands beside the first entry that equals a value. -/
def entryOf (table : List (Value × Value)) (v : Value) : Option Value :=
  (table.find? fun entry => entry.1.equals v).map (·.2)

/-- Null stands for nothing. -/
def unlessNull : Value → Option Value
  | .null => none
  | v => some v

/-- The next state, if there is one; only arithmetic breaks. -/
def Transition.next : Transition → Value → Except Defect (Option Value)
  | .pairs table, v => .ok ((entryOf table v).bind unlessNull)
  | .arithmetic move, v => move.next v

def Transition.rule (t : Transition) (name price : Value) : Rule Value :=
  Rule.checked name price t.next

/-- An edge from one state to another; its rule is named after both ends as they are written. -/
structure Edge where
  source : Value
  target : Value
  price : Value

def Edge.rule (e : Edge) : Rule Value :=
  (Transition.pairs [(e.source.tupled, e.target.tupled)]).rule
    (.text (e.source.plain ++ "->" ++ e.target.plain)) e.price

inductive Estimate where
  | missing
  | table (entries : List (Value × Value)) (otherwise : Value)
  | scaledDistance (scale : Value)

/-- The distance to a goal, divided by the scale and rounded down. -/
def distanceBy (scale : Value) (goal : Option Value) (v : Value) :
    Except Defect (Option Value) := do
  match goal with
  | none => .error .noGoal
  | some goal => .ok (some (← (← (← goal.minus v).magnitude).floorDiv scale))

/-- The estimate towards a goal. -/
def Estimate.toward (e : Estimate) (goal : Option Value) :
    Option (Value → Except Defect (Option Value)) :=
  match e with
  | .missing => none
  | .table entries otherwise =>
      some fun v => .ok (unlessNull ((entryOf entries v).getD otherwise))
  | .scaledDistance scale => some (distanceBy scale goal)

def problem (start : Value) (goals : List Value) (rules : List (Rule Value)) (e : Estimate) :
    Problem Value Value :=
  { initial := start
    isGoal := fun v => goals.any v.sameSize
    rules
    heuristic := e.toward goals.head? }

end StateSpace.Tabulated
