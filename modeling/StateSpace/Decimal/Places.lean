import StateSpace.Decimal.Fixed

/-!
Numbers with a given count of digits, in one of three forms: with that many places behind the point,
with that many places behind a leading digit and a power of ten, or with that many digits that
count, in whichever of the two forms is shorter. The exact binary value is rounded, a half to the
even neighbour.
-/
namespace StateSpace.Decimal

/-- Digits behind a leading one, and the decimal exponent of the leading one. -/
structure Rounded where
  digits : List Char
  leading : Int

/-- `mantissa * 2 ^ exponent` with so many digits behind the leading one. -/
def rounded (places : Nat) (mantissa : Nat) (exponent : Int) : Rounded :=
  if mantissa = 0 then { digits := zeros (places + 1), leading := 0 }
  else
    let (num, den) := Binary64.scale mantissa 1 exponent
    let leading := leadingExponent num den 24 (exponentAbove mantissa exponent)
    let up := tenPow (places - leading).toNat
    let down := tenPow (leading - places).toNat
    let n := Binary64.roundQuotient (num * up) (den * down)
    if n = tenPow (places + 1) then { digits := '1' :: zeros places, leading := leading + 1 }
    else { digits := (toString n).toList, leading }

/-- Digits with a point behind so many of them; a point at the end stays only where it is to. -/
def withPoint (keepsPoint : Bool) (whole : Nat) (digits : List Char) : List Char :=
  let fraction := digits.drop whole
  digits.take whole ++ (if fraction.isEmpty && !keepsPoint then [] else '.' :: fraction)

/-- A whole number of places behind the point. -/
def fixedForm (keepsPoint : Bool) (places mantissa : Nat) (exponent : Int) : List Char :=
  let (num, den) := Binary64.scale (mantissa * tenPow places) 1 exponent
  let units := (toString (Binary64.roundQuotient num den)).toList
  let digits := zeros (places + 1 - units.length) ++ units
  withPoint keepsPoint (digits.length - places) digits

/-- One digit, places behind it, and a power of ten. -/
def powerForm (keepsPoint : Bool) (places mantissa : Nat) (exponent : Int) : List Char :=
  let r := rounded places mantissa exponent
  withPoint keepsPoint 1 r.digits ++ power r.leading

/-- So many digits that count, of which zeros at the end are left out unless the point is kept. The
power of ten is written for exponents below -4 and from the count of digits on. -/
def generalForm (keepsPoint : Bool) (count mantissa : Nat) (exponent : Int) : List Char :=
  let count := max count 1
  let r := rounded (count - 1) mantissa exponent
  let trim (digits : List Char) (whole : Nat) : List Char :=
    if keepsPoint then digits else digits.take whole ++ trimZeros (digits.drop whole)
  if r.leading < -4 ∨ (count : Int) ≤ r.leading then
    withPoint keepsPoint 1 (trim r.digits 1) ++ power r.leading
  else
    let digits := zeros (-r.leading).toNat ++ r.digits
    let whole := r.leading.toNat + 1
    withPoint keepsPoint whole (trim digits whole)

inductive Form where
  | fixed
  | power
  | general
  deriving DecidableEq

def Form.digits : Form → Bool → Nat → Nat → Int → List Char
  | .fixed => fixedForm
  | .power => powerForm
  | .general => generalForm

/-- A number in a form, with six digits unless it is said how many. -/
def inForm (form : Form) (keepsPoint : Bool) (count : Option Nat) (x : Binary64) : List Char :=
  match x.magnitude with
  | .nan => ['n', 'a', 'n']
  | .infinite => (signed x.isNegative "inf").toList
  | .finite mantissa exponent =>
      let digits := form.digits keepsPoint (count.getD 6) mantissa exponent
      if x.isNegative then '-' :: digits else digits

end StateSpace.Decimal
