import StateSpace.Problem

/-!
Nodes of a search tree. A node is a root or the child of another node, so the way back to the root
is part of it; one state may stand in many nodes, one per way.
-/
namespace StateSpace

/-- A rule at its place in the rule list. -/
structure Move (σ : Type) where
  position : Nat
  rule : Rule σ

inductive Node (σ κ : Type) where
  | root (state : σ) (cost : κ)
  | child (parent : Node σ κ) (via : Option (Move σ)) (state : σ) (cost : κ)

namespace Node

variable {σ κ : Type}

def state : Node σ κ → σ
  | root s _ => s
  | child _ _ s _ => s

/-- The cost of the way from the root. -/
def cost : Node σ κ → κ
  | root _ c => c
  | child _ _ _ c => c

def move? : Node σ κ → Option (Move σ)
  | root _ _ => none
  | child _ via _ _ => via

/-- The number of steps from the root. -/
def depth : Node σ κ → Nat
  | root _ _ => 0
  | child p _ _ _ => p.depth + 1

/-- The nodes from the root to this one, put in front of `later`. -/
def pathOnto : Node σ κ → List (Node σ κ) → List (Node σ κ)
  | root s c, later => root s c :: later
  | child p via s c, later => p.pathOnto (child p via s c :: later)

def path (n : Node σ κ) : List (Node σ κ) := n.pathOnto []

def states (n : Node σ κ) : List σ := n.path.map state

/-- What led here: the rule's name, or a question mark where the rule is not known. -/
def action? : Node σ κ → Option Value
  | root _ _ => none
  | child _ via _ _ => some (via.elim (.text "?") (·.rule.name))

def actions (n : Node σ κ) : List Value := n.path.filterMap action?

/-- The positions of the rules along the way, root first. -/
def positions (n : Node σ κ) : List Nat := n.path.filterMap fun m => m.move?.map (·.position)

theorem pathOnto_eq (n : Node σ κ) (later : List (Node σ κ)) :
    n.pathOnto later = n.path ++ later := by
  induction n generalizing later with
  | root s c => rfl
  | child p via s c ih =>
    unfold path
    simp only [pathOnto]
    rw [ih, ih [child p via s c]]
    simp

@[simp]
theorem path_root (s : σ) (c : κ) : (root s c).path = [root s c] := rfl

@[simp]
theorem path_child (p : Node σ κ) (via : Option (Move σ)) (s : σ) (c : κ) :
    (child p via s c).path = p.path ++ [child p via s c] := by
  show p.pathOnto [child p via s c] = _
  exact p.pathOnto_eq _

theorem length_path (n : Node σ κ) : n.path.length = n.depth + 1 := by
  induction n with
  | root s c => rfl
  | child p via s c ih => simp [depth, ih]

theorem length_actions (n : Node σ κ) : n.actions.length = n.depth := by
  induction n with
  | root s c => rfl
  | child p via s c ih =>
    unfold actions at ih ⊢
    simp [action?, depth, ih]

end Node

end StateSpace
