import StateSpace.Number

/-!
Equality and order of values by what they amount to. Truth values are the numbers 0 and 1, integers
and reals compare by size, and the fields of a record have no order. Values of different kinds are
never equal, and there is no order between them; only a listing puts every value somewhere.
-/
namespace StateSpace.Value

mutual

/-- Whether two values are the same or amount to the same. A NaN amounts to nothing, and is only the
same as itself. -/
def sameSize : Value → Value → Bool
  | .list vs, .list ws => sameItems vs ws
  | .tuple vs, .tuple ws => sameItems vs ws
  | .record vs, .record ws => vs.length == ws.length && sameFields vs ws
  | v, w =>
      match Number.ofValue? v, Number.ofValue? w with
      | some a, some b => v = w || (!a.less b && !b.less a && !a.isNan && !b.isNan)
      | _, _ => v = w

def sameItems : List Value → List Value → Bool
  | [], [] => true
  | v :: vs, w :: ws => sameSize v w && sameItems vs ws
  | _, _ => false

/-- Whether every field has its equal under the same name. -/
def sameFields : List (String × Value) → List (String × Value) → Bool
  | [], _ => true
  | (name, v) :: vs, ws =>
      (match ws.lookup name with
        | some w => sameSize v w
        | none => false) && sameFields vs ws

end

theorem sameSize_int (a b : Int) : sameSize (.int a) (.int b) = decide (a = b) := by
  rw [Bool.eq_iff_iff]
  simp only [sameSize, Number.ofValue?, Number.less, Number.isNan, Bool.not_false, Bool.and_true,
    Bool.or_eq_true, Bool.and_eq_true, Bool.not_eq_true', decide_eq_true_eq, decide_eq_false_iff_not,
    Value.int.injEq]
  omega

/-- Whether two values amount to the same; a NaN by itself never does. -/
def equals (v w : Value) : Bool :=
  sameSize v w && !((Number.ofValue? v).any Number.isNan)

mutual

/-- Whether one value is below another: numbers by size, texts by code points, lists and tuples by
the first items that differ. -/
def below? : Value → Value → Option Bool
  | .text s, .text t => some (Text.precedes s t)
  | .list vs, .list ws => itemsBelow? vs ws
  | .tuple vs, .tuple ws => itemsBelow? vs ws
  | v, w =>
      match Number.ofValue? v, Number.ofValue? w with
      | some a, some b => some (a.less b)
      | _, _ => none

def itemsBelow? : List Value → List Value → Option Bool
  | [], ws => some (!ws.isEmpty)
  | _ :: _, [] => some false
  | v :: vs, w :: ws => if sameSize v w then itemsBelow? vs ws else below? v w

end

/-- Whether one value is another or below it; a NaN is not, on either side. -/
def atMost? (v w : Value) : Option Bool :=
  match Number.ofValue? v, Number.ofValue? w with
  | some a, some b => some (!b.less a && !a.isNan && !b.isNan)
  | _, _ => (below? w v).map not

/-- The order in which kinds of values are listed. -/
def kindRank : Value → Nat
  | .null => 0
  | .bool _ => 1
  | .int _ => 1
  | .real _ => 1
  | .text _ => 2
  | .list _ => 3
  | .tuple _ => 3
  | .record _ => 4

mutual

/-- Listing order: by kind, then numbers by size, texts by code points, lists and tuples item by
item. -/
def listing : Value → Value → Ordering
  | .text s, .text t => Text.order s t
  | .list vs, .list ws => listingOfItems vs ws
  | .tuple vs, .tuple ws => listingOfItems vs ws
  | v, w =>
      match Number.ofValue? v, Number.ofValue? w with
      | some a, some b => if a.less b then .lt else if b.less a then .gt else .eq
      | _, _ => compare v.kindRank w.kindRank

def listingOfItems : List Value → List Value → Ordering
  | [], [] => .eq
  | [], _ :: _ => .lt
  | _ :: _, [] => .gt
  | v :: vs, w :: ws =>
      match listing v w with
      | .eq => listingOfItems vs ws
      | order => order

end

end StateSpace.Value
