import StateSpace.Binary64

/-!
The shortest decimal text of a binary number: the fewest digits that read back as the number, and
of those the nearest. Exponents from -4 to 15 are written positionally, all others with `e`.
-/
namespace StateSpace.Decimal

/-- The numbers that round to a given one, as three fractions over one denominator. -/
structure Interval where
  low : Nat
  value : Nat
  high : Nat
  den : Nat
  closed : Bool

/-- The interval of `mantissa * 2 ^ exponent`; below a power of two the gap is half as wide. -/
def Interval.ofFinite (mantissa : Nat) (exponent : Int) : Interval :=
  let below := if mantissa = twoPow 52 ∧ exponent > -1074 then 1 else 2
  let place := exponent - 2
  let factor := twoPow place.toNat
  { low := (4 * mantissa - below) * factor
    value := 4 * mantissa * factor
    high := (4 * mantissa + 2) * factor
    den := twoPow (-place).toNat
    closed := mantissa % 2 = 0 }

/-- Whether the fraction `num / den` lies in the interval. -/
def Interval.contains (i : Interval) (num den : Nat) : Bool :=
  if i.closed then
    i.low * den ≤ num * i.den && num * i.den ≤ i.high * den
  else
    i.low * den < num * i.den && num * i.den < i.high * den

/-- The decimal exponent of the leading digit of a positive fraction, searched downwards from
`start`, which is no lower. -/
def leadingExponent (num den : Nat) : Nat → Int → Int
  | 0, start => start
  | fuel + 1, start =>
      if num * tenPow (-start).toNat ≥ den * tenPow start.toNat then start
      else leadingExponent num den fuel (start - 1)

/-- Digits `digits * 10 ^ exponent`. -/
structure Digits where
  digits : Nat
  exponent : Int
  deriving DecidableEq

/-- The neighbour of the interval's value on the grid of `10 ^ exponent` that lies in the interval,
of two the nearer, and of two equally near the even one. -/
def Interval.onGrid? (i : Interval) (exponent : Int) : Option Nat :=
  let up := tenPow exponent.toNat
  let down := tenPow (-exponent).toNat
  let below := i.value * down / (i.den * up)
  let above := below + 1
  match i.contains (below * up) down && below > 0, i.contains (above * up) down with
  | true, true =>
      let twice := 2 * i.value * down
      let middle := (below + above) * up * i.den
      if twice < middle ∨ (twice = middle ∧ below % 2 = 0) then some below else some above
  | true, false => some below
  | false, true => some above
  | false, false => none

/-- The first grid with a hit, from one digit on. -/
def Interval.shortest (i : Interval) (leading : Int) : Nat → Nat → Digits
  | 0, places =>
      { digits :=
          i.value * tenPow (places - leading).toNat / (i.den * tenPow (leading - places).toNat)
        exponent := leading - places }
  | fuel + 1, places =>
      match i.onGrid? (leading - places) with
      | some digits => { digits, exponent := leading - places }
      | none => i.shortest leading fuel (places + 1)

/-- A decimal exponent no lower than that of the leading digit of `mantissa * 2 ^ exponent`, and not
far above it. -/
def exponentAbove (mantissa : Nat) (exponent : Int) : Int :=
  let bits := (mantissa.log2 : Int) + exponent + 1
  (if bits < 0 then bits * 30 else bits * 31) / 100 + 1

def shortestDigits (mantissa : Nat) (exponent : Int) : Digits :=
  let i := Interval.ofFinite mantissa exponent
  i.shortest (leadingExponent i.value i.den 24 (exponentAbove mantissa exponent)) 17 0

/-- Digits with trailing zeros removed; the exponent grows by the number removed. -/
def trimZeros : List Char → List Char
  | digits => (digits.reverse.dropWhile (· == '0')).reverse

def zeros (n : Nat) : List Char := List.replicate n '0'

/-- A power of ten behind digits: its sign, and two digits of the exponent or more. -/
def power (exponent : Int) : List Char :=
  let size := (toString exponent.natAbs).toList
  'e' :: (if exponent < 0 then '-' else '+') :: zeros (2 - size.length) ++ size

/-- Digits `d₀d₁…` whose leading digit has the given decimal exponent, in positional or exponent
form. -/
def layout (digits : List Char) (leading : Int) : List Char :=
  if -4 ≤ leading ∧ leading < 0 then
    '0' :: '.' :: zeros (-leading - 1).toNat ++ digits
  else if 0 ≤ leading ∧ leading < 16 then
    let whole := leading.toNat + 1
    let fraction := digits.drop whole
    (digits.take whole ++ zeros (whole - digits.length)) ++
      '.' :: (if fraction.isEmpty then ['0'] else fraction)
  else
    match digits with
    | [] => []
    | [d] => d :: power leading
    | d :: rest => d :: '.' :: rest ++ power leading

def signed (negative : Bool) (text : String) : String :=
  if negative then "-" ++ text else text

/-- The shortest text that reads back as the number. -/
def shortest (x : Binary64) : String :=
  match x.magnitude with
  | .nan => "nan"
  | .infinite => signed x.isNegative "inf"
  | .finite 0 _ => signed x.isNegative "0.0"
  | .finite mantissa exponent =>
      let d := shortestDigits mantissa exponent
      let digits := (toString d.digits).toList
      let leading := d.exponent + digits.length - 1
      signed x.isNegative (String.ofList (layout (trimZeros digits) leading))

end StateSpace.Decimal
