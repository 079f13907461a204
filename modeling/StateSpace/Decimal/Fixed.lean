import StateSpace.Decimal.Shortest

/-!
Numbers with a fixed count of decimal places. The exact binary value is rounded, a half to the even
neighbour.
-/
namespace StateSpace.Decimal

/-- `units / 10 ^ places` written out with all its places. -/
def pointed (places units : Nat) : String :=
  let whole := toString (units / tenPow places)
  let fraction := (toString (units % tenPow places)).toList
  String.ofList (whole.toList ++ '.' :: zeros (places - fraction.length) ++ fraction)

def fixed (places : Nat) (x : Binary64) : String :=
  match x.magnitude with
  | .nan => "nan"
  | .infinite => signed x.isNegative "inf"
  | .finite mantissa exponent =>
      let (num, den) := Binary64.scale (mantissa * tenPow places) 1 exponent
      signed x.isNegative (pointed places (Binary64.roundQuotient num den))

end StateSpace.Decimal
