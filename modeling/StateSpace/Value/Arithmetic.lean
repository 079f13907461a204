import StateSpace.Value.Order
import StateSpace.Value.Template

/-!
Arithmetic over values: numbers are added and multiplied, texts and sequences joined and repeated.
What has no sum or product is of the wrong kind.
-/
namespace StateSpace.Value

def ofNumber? : Option Number → Except Defect Value
  | some n => .ok n.toValue
  | none => .error .tooLarge

/-- An operation on the numbers in two values. -/
def onNumbers (op : Number → Number → Option Number) (v w : Value) : Except Defect Value :=
  match Number.ofValue? v, Number.ofValue? w with
  | some a, some b => ofNumber? (op a b)
  | _, _ => .error .wrongKind

/-- An operation on the numbers in two values that divides by the second. -/
def dividing (op : Number → Number → Option Number) (v w : Value) : Except Defect Value :=
  match Number.ofValue? v, Number.ofValue? w with
  | some a, some b =>
      match Number.matched? a b with
      | none => .error .tooLarge
      | some (_, divisor) =>
          if divisor.isZero then .error .divisionByZero else ofNumber? (op a b)
  | _, _ => .error .wrongKind

def plus : Value → Value → Except Defect Value
  | .text s, .text t => .ok (.text (s ++ t))
  | .list vs, .list ws => .ok (.list (vs ++ ws))
  | .tuple vs, .tuple ws => .ok (.tuple (vs ++ ws))
  | v, w => onNumbers Number.add? v w

theorem plus_int (a b : Int) : plus (.int a) (.int b) = .ok (.int (a + b)) := rfl

def minus : Value → Value → Except Defect Value := onNumbers Number.sub?

def floorDiv : Value → Value → Except Defect Value := dividing Number.floorDiv?

/-- What is left when numbers are divided; a text is a template that is filled. -/
def modulo : Value → Value → Except Defect Value
  | .text s, v => do .ok (.text (← Template.fill s v))
  | v, w => dividing Number.modulo? v w

def magnitude (v : Value) : Except Defect Value :=
  match Number.ofValue? v with
  | some n => .ok n.abs.toValue
  | none => .error .wrongKind

/-- Counts beyond this one, or as far below zero, are too large to repeat by. -/
def maxCount : Int := 0x7fffffffffffffff

/-- The most items that there is room for. -/
def maxItems : Int := 10000000

def repeated {α : Type} (items : List α) (count : Nat) : List α :=
  (List.replicate count items).flatten

/-- How often something of a size is to be repeated by the count in a value; counts from zero down
leave nothing, and of nothing no more than one is needed. -/
def countOf (size : Nat) (uncountable : Defect) (v : Value) : Except Defect Nat :=
  match v.toInt? with
  | none => .error .wrongKind
  | some count =>
      if count < -maxCount - 1 ∨ maxCount < count then .error .tooLarge
      else if maxCount < size * count then .error uncountable
      else if maxItems < size * count then .error .noRoom
      else .ok (if size = 0 then 0 else count.toNat)

def times : Value → Value → Except Defect Value
  | .text s, v | v, .text s => do
      .ok (.text (String.join (List.replicate (← countOf (Text.codesOf s).length .tooLarge v) s)))
  | .list vs, v | v, .list vs => do .ok (.list (repeated vs (← countOf vs.length .noRoom v)))
  | .tuple vs, v | v, .tuple vs => do .ok (.tuple (repeated vs (← countOf vs.length .noRoom v)))
  | v, w => onNumbers Number.mul? v w

/-- Whether one value lies below another, if the two have an order. -/
def isBelow (v w : Value) : Except Defect Bool :=
  match v.below? w with
  | some b => .ok b
  | none => .error .wrongKind

theorem isBelow_int (a b : Int) : isBelow (.int a) (.int b) = .ok (decide (a < b)) := rfl

/-- Whether one value is another or lies below it, if the two have an order. -/
def isAtMost (v w : Value) : Except Defect Bool :=
  match v.atMost? w with
  | some b => .ok b
  | none => .error .wrongKind

theorem isAtMost_int (a b : Int) : isAtMost (.int a) (.int b) = .ok (decide (a ≤ b)) := by
  simp [isAtMost, atMost?, Number.ofValue?, Number.less, Number.isNan, ← decide_not]

end StateSpace.Value
