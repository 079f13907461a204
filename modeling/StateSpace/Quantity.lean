import StateSpace.Sorting.Runs
import StateSpace.StableSort
import StateSpace.Value.Arithmetic

/-!
What costs, estimates and depth bounds are counted in. Of integers every two have a sum and an
order; where any value may stand for a quantity, there may be neither.
-/
namespace StateSpace

class Quantity (κ : Type) where
  ofInt : Int → κ
  toValue : κ → Value
  /-- Whether it stands for no quantity at all. -/
  isMissing : κ → Bool
  add : κ → κ → Except Defect κ
  /-- Whether the first is less than the second, if they have an order. -/
  below? : κ → κ → Option Bool
  /-- Whether the first is not more than the second, if they have an order. -/
  atMost? : κ → κ → Option Bool
  /-- Items beside their keys, least first and equals in the order given, if all that are compared
  have an order. -/
  sort? : {α : Type} → List (κ × α) → Option (List (κ × α))

instance : Quantity Int where
  ofInt n := n
  toValue n := .int n
  isMissing _ := false
  add a b := .ok (a + b)
  below? a b := some (decide (a < b))
  atMost? a b := some (decide (a ≤ b))
  sort? items := some (stableSort (fun a b => a.1 < b.1) items)

instance : Quantity Value where
  ofInt n := .int n
  toValue v := v
  isMissing v := decide (v = .null)
  add := Value.plus
  below? := Value.below?
  atMost? := Value.atMost?
  sort? items := Sorting.sort? (fun a b => a.1.below? b.1) items

namespace Quantity

@[simp]
theorem ofInt_int (n : Int) : (ofInt n : Int) = n := rfl

@[simp]
theorem isMissing_int (n : Int) : isMissing n = false := rfl

@[simp]
theorem add_int (a b : Int) : add a b = .ok (a + b) := rfl

@[simp]
theorem below?_int (a b : Int) : below? a b = some (decide (a < b)) := rfl

@[simp]
theorem atMost?_int (a b : Int) : atMost? a b = some (decide (a ≤ b)) := rfl

@[simp]
theorem sort?_int {α : Type} (items : List (Int × α)) :
    sort? items = some (stableSort (fun a b => a.1 < b.1) items) := rfl

end Quantity

end StateSpace
