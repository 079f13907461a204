import StateSpace.Display
import StateSpace.Node

/-!
How a node stands in a listing.
-/
namespace StateSpace

def Node.write {σ κ : Type} [Display σ] [Quantity κ] (room : Nat) (n : Node σ κ) :
    Except Unwritable String := do
  let state ← Display.quoted room n.state
  let cost ← (Quantity.toValue n.cost).writePlain room
  .ok ("SearchNode(state=" ++ state ++ ", cost=" ++ cost ++ ")")

end StateSpace
