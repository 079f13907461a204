import StateSpace.Quantity

/-!
Problems of state-space search: an initial state, a goal test, a list of rules whose order decides
the order of children, and an estimate of the remaining cost that may be missing altogether or at
single states. Rules and estimates may be written for some states only; at any other they break.
-/
namespace StateSpace

/-- What a rule does at a state: nothing, or it leads to a next state at the price it asks, or it
breaks. -/
inductive Step (σ : Type) where
  | blocked
  | leads (next : σ) (asked : Value)
  | broken (d : Defect)

/-- A rule that is written down as data may be named by any value. -/
structure Rule (σ : Type) where
  name : Value
  apply : σ → Step σ

/-- A rule with one fixed price. -/
def Rule.fixed (name : String) (price : Value) (next : σ → Option σ) : Rule σ :=
  { name := .text name
    apply := fun s =>
      match next s with
      | none => .blocked
      | some t => .leads t price }

/-- A rule with one fixed price that may break. -/
def Rule.checked (name : Value) (price : Value) (next : σ → Except Defect (Option σ)) : Rule σ :=
  { name
    apply := fun s =>
      match next s with
      | .error d => .broken d
      | .ok none => .blocked
      | .ok (some t) => .leads t price }

def Rule.unit (name : String) (next : σ → Option σ) : Rule σ :=
  Rule.fixed name (.int 1) next

/-- A problem over states of one type, whose estimates are given in the quantities of another. -/
structure Problem (σ κ : Type) where
  initial : σ
  isGoal : σ → Bool
  rules : List (Rule σ)
  heuristic : Option (σ → Except Defect (Option κ))

namespace Problem

variable {σ κ : Type}

/-- The estimate at a state, zero where none is given. -/
def estimate [Quantity κ] (p : Problem σ κ) (s : σ) : Except Defect κ :=
  match p.heuristic with
  | none => .ok (Quantity.ofInt 0)
  | some h => (h s).map (·.getD (Quantity.ofInt 0))

/-- The same problem with its estimates written differently. -/
def mapEstimates {μ : Type} (f : κ → μ) (p : Problem σ κ) : Problem σ μ :=
  { p with heuristic := p.heuristic.map fun h s => (h s).map (·.map f) }

/-- A state that a rule leads to from here, whatever the price. -/
def Leads (p : Problem σ κ) (s t : σ) : Prop :=
  ∃ rule ∈ p.rules, ∃ asked, rule.apply s = .leads t asked

end Problem

end StateSpace
