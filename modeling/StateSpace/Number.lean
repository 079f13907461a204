import StateSpace.Value

/-!
Numbers that are integers or reals. An operation on two integers stays exact; a real makes the
result real.
-/
namespace StateSpace

inductive Number where
  | int (n : Int)
  | real (x : Binary64)
  deriving DecidableEq

namespace Number

/-- The nearest real, unless an integer is too large for one. -/
def toReal? : Number → Option Binary64
  | .int n => Binary64.ofInt? n
  | .real x => some x

def toValue : Number → Value
  | .int n => .int n
  | .real x => .real x

/-- The number in a value; truth values count as 0 and 1. -/
def ofValue? : Value → Option Number
  | .int n => some (.int n)
  | .real x => some (.real x)
  | .bool b => some (.int (if b then 1 else 0))
  | _ => none

/-- Two numbers as two integers or as two reals, unless a real meets an integer that is too large
for one. -/
def matched? : Number → Number → Option (Number × Number)
  | .int a, .int b => some (.int a, .int b)
  | a, b =>
      match a.toReal?, b.toReal? with
      | some x, some y => some (.real x, .real y)
      | _, _ => none

/-- An operation on two numbers that match. -/
def combine? (onInts : Int → Int → Int) (onReals : Binary64 → Binary64 → Binary64)
    (a b : Number) : Option Number :=
  match matched? a b with
  | some (.int a, .int b) => some (.int (onInts a b))
  | some (.real x, .real y) => some (.real (onReals x y))
  | _ => none

def add? : Number → Number → Option Number := combine? (· + ·) (· + ·)

def sub? : Number → Number → Option Number := combine? (· - ·) (· - ·)

def mul? : Number → Number → Option Number := combine? (· * ·) (· * ·)

/-- The quotient by a number that is not zero, rounded down. -/
def floorDiv? : Number → Number → Option Number := combine? Int.fdiv Binary64.floorDiv

/-- What is left when that quotient is taken. -/
def modulo? : Number → Number → Option Number := combine? Int.fmod Binary64.modulo

def abs : Number → Number
  | .int n => .int n.natAbs
  | .real x => .real x.abs

/-- The real zero. -/
instance : Zero Number := ⟨.real Binary64.zero⟩

/-- The integer part of a real, rounded down, with a mark for a fraction left over. -/
def floorOf (x : Binary64) : Option (Int × Bool) :=
  match x.magnitude with
  | .finite mantissa exponent =>
      let (num, den) := Binary64.scale mantissa 1 exponent
      let signed : Int := if x.isNegative then -(num : Int) else num
      some (signed.fdiv den, decide (signed.fmod den ≠ 0))
  | _ => none

/-- Exact numeric order, also between an integer and a real. -/
def less : Number → Number → Bool
  | .int a, .int b => a < b
  | .real x, .real y => x.lt y
  | .int a, .real y =>
      match floorOf y with
      | some (n, hasRest) => if hasRest then a ≤ n else a < n
      | none => Binary64.zero.lt y
  | .real x, .int b =>
      match floorOf x with
      | some (n, _) => n < b
      | none => x.lt Binary64.zero

def isZero : Number → Bool
  | .int n => n == 0
  | .real x => x.isZero

def isNan : Number → Bool
  | .int _ => false
  | .real x => x.isNan

end Number

end StateSpace
