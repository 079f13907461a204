import StateSpace.Power

/-!
Binary floating-point numbers of 64 bits, held as their bit pattern. Every finite value is
`± mantissa * 2 ^ exponent`; rounding to the nearest value is done in exact natural arithmetic.
-/
namespace StateSpace

structure Binary64 where
  bits : UInt64
  deriving DecidableEq, Hashable

namespace Binary64

/-- The number that a bit pattern stands for. -/
inductive Magnitude where
  | nan
  | infinite
  | finite (mantissa : Nat) (exponent : Int)
  deriving DecidableEq

def isNegative (x : Binary64) : Bool :=
  x.bits.toNat ≥ twoPow 63

def magnitude (x : Binary64) : Magnitude :=
  let fraction : Nat := x.bits.toNat % twoPow 52
  let biased : Nat := x.bits.toNat / twoPow 52 % twoPow 11
  if biased = 2047 then
    if fraction = 0 then .infinite else .nan
  else if biased = 0 then
    .finite fraction (-1074)
  else
    .finite (twoPow 52 + fraction) ((biased : Int) - 1075)

/-- The quotient rounded to the nearest natural number, a half to the even neighbour. -/
def roundQuotient (num den : Nat) : Nat :=
  let quotient := num / den
  let rest := 2 * (num % den)
  if rest < den then quotient
  else if rest > den then quotient + 1
  else quotient + quotient % 2

/-- `num * 2 ^ exponent / den` as a quotient of natural numbers. -/
def scale (num den : Nat) (exponent : Int) : Nat × Nat :=
  if exponent < 0 then (num, den * twoPow (-exponent).toNat)
  else (num * twoPow exponent.toNat, den)

def infinityBits : Nat := 2047 * twoPow 52

def ofSignBits (negative : Bool) (bits : Nat) : Binary64 :=
  ⟨UInt64.ofNat (if negative then bits + twoPow 63 else bits)⟩

def zero : Binary64 := ⟨0⟩

def infinity : Binary64 := ofSignBits false infinityBits

def quietNan : Binary64 := ⟨0x7ff8000000000000⟩

/-- The NaN that an operation gives where it has no value. -/
def invalid : Binary64 := ⟨0xfff8000000000000⟩

def isNan (x : Binary64) : Bool := x.magnitude == .nan

/-- The exponent of the last place in the value nearest to `num / den`. -/
def lastPlace (num den : Nat) : Int :=
  let guess := (num.log2 : Int) - den.log2
  let (n, d) := scale num den (-guess)
  let leading := if n < d then guess - 1 else guess
  max (leading - 52) (-1074)

/-- The value nearest to `num / den`, ties to the even mantissa; infinity when it is too large. -/
def ofRatio (negative : Bool) (num den : Nat) : Binary64 :=
  if num = 0 then
    ofSignBits negative 0
  else
    let place := lastPlace num den
    let (n, d) := scale num den (-place)
    let bits := (place + 1074).toNat * twoPow 52 + roundQuotient n d
    ofSignBits negative (min bits infinityBits)

def isFinite (x : Binary64) : Bool :=
  match x.magnitude with
  | .finite _ _ => true
  | _ => false

/-- The value nearest to an integer, unless the integer is too large for any finite one. -/
def ofInt? (n : Int) : Option Binary64 :=
  let x := ofRatio (n < 0) n.natAbs 1
  if x.isFinite then some x else none

/-- The digits `n` with the decimal point moved: the value nearest to `n * 10 ^ exponent`. -/
def ofDecimal (negative : Bool) (n : Nat) (exponent : Int) : Binary64 :=
  if n = 0 then
    ofSignBits negative 0
  else
    if exponent + (n.log2 / 4 : Nat) > 400 then ofSignBits negative infinityBits
    else if exponent + (n.log2 / 3 : Nat) < -401 then ofSignBits negative 0
    else if exponent < 0 then ofRatio negative n (tenPow (-exponent).toNat)
    else ofRatio negative (n * tenPow exponent.toNat) 1

/-- The nearest integer, a half to the even neighbour, unless there is none. -/
def nearest? (x : Binary64) : Option Int :=
  match x.magnitude with
  | .finite mantissa exponent =>
      let (num, den) := scale mantissa 1 exponent
      let n := roundQuotient num den
      some (if x.isNegative then -(n : Int) else n)
  | _ => none

def toFloat (x : Binary64) : Float := Float.ofBits x.bits

def ofFloat (x : Float) : Binary64 := ⟨x.toBits⟩

/-- An operation on two values. A NaN is handed on as it is, the first of two. -/
def combine (op : Float → Float → Float) (x y : Binary64) : Binary64 :=
  if x.isNan then x
  else if y.isNan then y
  else
    let z := op x.toFloat y.toFloat
    if z.isNaN then invalid else ofFloat z

instance : Add Binary64 := ⟨combine (· + ·)⟩

instance : Sub Binary64 := ⟨combine (· - ·)⟩

instance : Mul Binary64 := ⟨combine (· * ·)⟩

instance : Div Binary64 := ⟨combine (· / ·)⟩

def abs (x : Binary64) : Binary64 := ⟨UInt64.ofNat (x.bits.toNat % twoPow 63)⟩

/-- Numeric order; a NaN is neither below nor above anything. -/
def lt (x y : Binary64) : Bool := x.toFloat < y.toFloat

/-- The larger of two values, the first of equals. -/
def larger (x y : Binary64) : Binary64 := if x.lt y then y else x

/-- The smaller of two values, the first of equals. -/
def smaller (x y : Binary64) : Binary64 := if y.lt x then y else x

def isZero (x : Binary64) : Bool := x.bits.toNat % twoPow 63 = 0

/-- What is left when one number is divided by another towards zero. It is exact, and has the sign
of the first. -/
def remainder (x y : Binary64) : Binary64 :=
  match x.magnitude, y.magnitude with
  | .nan, _ => x
  | _, .nan => y
  | .finite _ _, .infinite => x
  | .infinite, _ => invalid
  | .finite m e, .finite n f =>
      let place := min e f
      let divisor := n * twoPow (f - place).toNat
      if divisor = 0 then invalid
      else
        let (num, den) := scale (m * twoPow (e - place).toNat % divisor) 1 place
        ofRatio x.isNegative num den

/-- Whether a remainder has another sign than the divisor, so that one more has to be taken off for
the quotient to be rounded down. -/
def overshoots (rest y : Binary64) : Bool := !rest.isZero && rest.lt zero != y.lt zero

/-- What is left when the quotient is rounded down; it has the sign of the divisor. -/
def modulo (x y : Binary64) : Binary64 :=
  let rest := x.remainder y
  if rest.isZero then ofSignBits y.isNegative 0
  else if overshoots rest y then rest + y
  else rest

def one : Binary64 := ofRatio false 1 1

def half : Binary64 := ofRatio false 1 2

/-- The quotient rounded down. -/
def floorDiv (x y : Binary64) : Binary64 :=
  let rest := x.remainder y
  let exact := (x - rest) / y
  let quotient := if overshoots rest y then exact - one else exact
  if quotient.isZero then ofSignBits (x / y).isNegative 0
  else
    let floor := combine (fun a _ => a.floor) quotient quotient
    if half.lt (quotient - floor) then floor + one else floor

end Binary64

end StateSpace
