import StateSpace.Results.Rows
import StateSpace.Sorting.Runs
import StateSpace.Value.Order

/-!
Rows in increasing order of one of their fields; rows without a value come last, and equals keep
their order. Values of different kinds have no order between them, and a ranking in which such a
pair is compared fails.
-/
namespace StateSpace.Results

/-- What a row is ranked by whose field holds a value; null stands for infinity. -/
def rankKey : Value → Value
  | .null => .real Binary64.infinity
  | v => v

/-- Rows by increasing keys, unless two keys have no order between them. -/
def ranked? (keyed : List (Value × Row)) : Option (List Row) :=
  (Sorting.sort? (fun a b => a.1.below? b.1) keyed).map fun sorted => sorted.map (·.2)

end StateSpace.Results
