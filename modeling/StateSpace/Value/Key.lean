import StateSpace.Keyed
import StateSpace.Value.Order

/-!
Values as states. They are looked up by what they amount to, so that 1, 1.0 and true are one state;
lists and records may change, and cannot be looked up.
-/
namespace StateSpace

/-- The hash of a whole number is the same whether it is an integer or a real. -/
def Number.hashOf : Number → UInt64
  | .int n => hash n
  | .real x =>
      match Number.floorOf x with
      | some (n, false) => hash n
      | _ => hash x

namespace Value

mutual

/-- Values of the same size have the same hash. -/
def hashOf : Value → UInt64
  | .text s => mixHash 23 (hash s)
  | .list vs => mixHash 29 (hashItems vs)
  | .tuple vs => mixHash 37 (hashItems vs)
  | .record vs => mixHash 31 (hash vs.length)
  | v =>
      match Number.ofValue? v with
      | some n => mixHash 17 n.hashOf
      | none => 11

def hashItems : List Value → UInt64
  | [] => 7
  | v :: vs => mixHash (hashOf v) (hashItems vs)

end

mutual

/-- Whether a value can be looked up. -/
def isKey : Value → Bool
  | .list _ => false
  | .record _ => false
  | .tuple vs => areKeys vs
  | _ => true

def areKeys : List Value → Bool
  | [] => true
  | v :: vs => isKey v && areKeys vs

end

instance : Keyed Value where
  sameness := ⟨sameSize⟩
  hashing := ⟨hashOf⟩
  isKey := isKey

end Value

end StateSpace
