import StateSpace.Problem

/-!
Reaching a number by adding one and by doubling, and a variant that only adds two and doubles.
-/
namespace StateSpace.Doubling

/-- The result of a move, unless it lies above the limit. -/
def within (limit : Option Int) (n : Int) : Option Int :=
  match limit with
  | none => some n
  | some top => if n > top then none else some n

/-- How often a positive number can be doubled and stay below the goal. -/
def doublings (goal reach : Int) : Int :=
  if 0 < reach ∧ reach * 2 < goal then doublings goal (reach * 2) + 1 else 0
  termination_by (goal - reach).toNat

/-- The doublings that stay below the goal; no estimate from zero down or from the goal up. -/
def estimate (goal n : Int) : Option Int :=
  if n ≥ goal ∨ n ≤ 0 then none else some (doublings goal n)

def rules (limit : Option Int) : List (Rule Int) :=
  [ Rule.unit "increment" fun n => within limit (n + 1),
    Rule.unit "double" fun n => within limit (n * 2) ]

/-- From `start` to `goal` by `n + 1` and `2 n`, at one unit of cost each. -/
def problem (start goal : Int) (limit : Option Int) : Problem Int Int :=
  { initial := start
    isGoal := fun n => n == goal
    rules := rules limit
    heuristic := some fun n => .ok (estimate goal n) }

def evenRules (limit : Int) : List (Rule Int) :=
  [ Rule.unit "add_two" fun n => within (some limit) (n + 2),
    Rule.unit "double" fun n => within (some limit) (n * 2) ]

/-- From `start` to `goal` by `n + 2` and `2 n`, without an estimate. -/
def evens (start goal limit : Int) : Problem Int Int :=
  { initial := start
    isGoal := fun n => n == goal
    rules := evenRules limit
    heuristic := none }

/-! ### Over values -/

/-- The result of a move, unless it lies above the limit. -/
def unlessAbove (limit : Option Value) (move : Value → Except Defect Value) (v : Value) :
    Except Defect (Option Value) := do
  let next ← move v
  match limit with
  | none => .ok (some next)
  | some top => if ← Value.isBelow top next then .ok none else .ok (some next)

/-- The result of a move that lies at the limit or below it. -/
def ifAtMost (limit : Value) (move : Value → Except Defect Value) (v : Value) :
    Except Defect (Option Value) := do
  let next ← move v
  if ← Value.isAtMost next limit then .ok (some next) else .ok none

/-- How often a positive number can be doubled and stay below the goal, counted up to `fuel`. -/
def doublingsOver (goal reach : Number) : Nat → Nat
  | 0 => 0
  | fuel + 1 =>
      match reach.mul? (.int 2) with
      | none => 0
      | some next => if next.less goal then doublingsOver goal next fuel + 1 else 0

/-- More doublings than a positive number takes to pass the goal: no real takes more than 2200. -/
def doublingFuel : Number → Nat
  | .int n => 2200 + n.natAbs.log2
  | .real _ => 2200

/-- The estimate between values: any two that have an order can be compared, but only numbers can be
doubled. -/
def estimateOver (goal v : Value) : Except Defect (Option Value) := do
  if ← Value.isAtMost goal v then .ok none
  else if ← Value.isAtMost v (.int 0) then .ok none
  else
    match Number.ofValue? v, Number.ofValue? goal with
    | some n, some goal => .ok (some (.int (doublingsOver goal n (doublingFuel goal))))
    | _, _ => .error .wrongKind

/-- The same problem, where start, goal and limit may be any values; a null is no limit. -/
def problemOver (start goal limit : Value) : Problem Value Value :=
  let limit := if limit = .null then none else some limit
  { initial := start
    isGoal := fun v => v.equals goal
    rules :=
      [ Rule.checked (.text "increment") (.int 1) (unlessAbove limit (·.plus (.int 1))),
        Rule.checked (.text "double") (.int 1) (unlessAbove limit (·.times (.int 2))) ]
    heuristic := some (estimateOver goal) }

/-- The same variant, where start, goal and limit may be any values. -/
def evensOver (start goal limit : Value) : Problem Value Value :=
  { initial := start
    isGoal := fun v => v.equals goal
    rules :=
      [ Rule.checked (.text "add_two") (.int 1) (ifAtMost limit (·.plus (.int 2))),
        Rule.checked (.text "double") (.int 1) (ifAtMost limit (·.times (.int 2))) ]
    heuristic := none }

end StateSpace.Doubling
