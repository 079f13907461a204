import StateSpace.Binary64
import StateSpace.Text.Half

/-!
Plain data: what a document holds, what a state of a tabulated problem is, and what a rule may ask
as its price. Lists and tuples both hold items in order; a tuple never changes, so that it can be
looked up, and no tuple is a list.
-/
namespace StateSpace

inductive Value where
  | null
  | bool (b : Bool)
  | int (n : Int)
  | real (x : Binary64)
  | text (s : String)
  | list (items : List Value)
  | tuple (items : List Value)
  | record (fields : List (String × Value))

namespace Value

mutual

/-- Equality of values, decided by walking both at once. -/
def decEq : (v w : Value) → Decidable (v = w)
  | .null, .null => isTrue rfl
  | .bool a, .bool b => decidable_of_iff (a = b) (by simp)
  | .int a, .int b => decidable_of_iff (a = b) (by simp)
  | .real a, .real b => decidable_of_iff (a = b) (by simp)
  | .text a, .text b => decidable_of_iff (a = b) (by simp)
  | .list vs, .list ws => @decidable_of_iff _ (vs = ws) (by simp) (decEqItems vs ws)
  | .tuple vs, .tuple ws => @decidable_of_iff _ (vs = ws) (by simp) (decEqItems vs ws)
  | .record vs, .record ws => @decidable_of_iff _ (vs = ws) (by simp) (decEqFields vs ws)
  | .null, .bool _ | .null, .int _ | .null, .real _ | .null, .text _ | .null, .list _
  | .null, .tuple _ | .null, .record _ => isFalse (by simp)
  | .bool _, .null | .bool _, .int _ | .bool _, .real _ | .bool _, .text _
  | .bool _, .list _ | .bool _, .tuple _ | .bool _, .record _ => isFalse (by simp)
  | .int _, .null | .int _, .bool _ | .int _, .real _ | .int _, .text _
  | .int _, .list _ | .int _, .tuple _ | .int _, .record _ => isFalse (by simp)
  | .real _, .null | .real _, .bool _ | .real _, .int _ | .real _, .text _
  | .real _, .list _ | .real _, .tuple _ | .real _, .record _ => isFalse (by simp)
  | .text _, .null | .text _, .bool _ | .text _, .int _ | .text _, .real _
  | .text _, .list _ | .text _, .tuple _ | .text _, .record _ => isFalse (by simp)
  | .list _, .null | .list _, .bool _ | .list _, .int _ | .list _, .real _
  | .list _, .text _ | .list _, .tuple _ | .list _, .record _ => isFalse (by simp)
  | .tuple _, .null | .tuple _, .bool _ | .tuple _, .int _ | .tuple _, .real _
  | .tuple _, .text _ | .tuple _, .list _ | .tuple _, .record _ => isFalse (by simp)
  | .record _, .null | .record _, .bool _ | .record _, .int _ | .record _, .real _
  | .record _, .text _ | .record _, .list _ | .record _, .tuple _ => isFalse (by simp)

def decEqItems : (vs ws : List Value) → Decidable (vs = ws)
  | [], [] => isTrue rfl
  | [], _ :: _ => isFalse (by simp)
  | _ :: _, [] => isFalse (by simp)
  | v :: vs, w :: ws =>
      match decEq v w with
      | isFalse h => isFalse (by simp [h])
      | isTrue h => @decidable_of_iff _ (vs = ws) (by simp [h]) (decEqItems vs ws)

def decEqFields : (vs ws : List (String × Value)) → Decidable (vs = ws)
  | [], [] => isTrue rfl
  | [], _ :: _ => isFalse (by simp)
  | _ :: _, [] => isFalse (by simp)
  | (k, v) :: vs, (l, w) :: ws =>
      if hk : k = l then
        match decEq v w with
        | isFalse h => isFalse (by simp [h])
        | isTrue h => @decidable_of_iff _ (vs = ws) (by simp [hk, h]) (decEqFields vs ws)
      else isFalse (by simp [hk])

end

instance : DecidableEq Value := decEq

/-- A price is a natural number; truth values are none. -/
def toPrice? : Value → Option Nat
  | .int n => if 0 ≤ n then some n.toNat else none
  | _ => none

def isPrice (v : Value) : Bool := v.toPrice?.isSome

/-- The integer in a value; truth values count as 0 and 1. -/
def toInt? : Value → Option Int
  | .int n => some n
  | .bool b => some (if b then 1 else 0)
  | _ => none

/-- The fields of a record; other values have none. -/
def fields : Value → List (String × Value)
  | .record fields => fields
  | _ => []

/-- The value kept under a name in a record. -/
def field? (name : String) : Value → Option Value
  | .record fields => fields.lookup name
  | _ => none

/-- What a value holds when it is gone through item by item. -/
def items? : Value → Option (List Value)
  | .list vs => some vs
  | .tuple vs => some vs
  | .text s => some ((Text.symbols s).map .text)
  | .record fields => some (fields.map fun (name, _) => .text name)
  | _ => none

/-- Whether a value counts as true: not null, not false, not zero, not empty. -/
def isTruthy : Value → Bool
  | .null => false
  | .bool b => b
  | .int n => n ≠ 0
  | .real x => !x.isZero
  | .text s => s ≠ ""
  | .list vs => !vs.isEmpty
  | .tuple vs => !vs.isEmpty
  | .record vs => !vs.isEmpty

mutual

/-- The value with all its lists, but those in records, as tuples. -/
def tupled : Value → Value
  | .list vs => .tuple (tupledItems vs)
  | .tuple vs => .tuple (tupledItems vs)
  | v => v

def tupledItems : List Value → List Value
  | [] => []
  | v :: vs => tupled v :: tupledItems vs

end

end Value

end StateSpace
