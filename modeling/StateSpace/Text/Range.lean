/-!
Sets of code points as lists of closed ranges in rising order.
-/
namespace StateSpace.Text

abbrev CodeRanges := List (Nat × Nat)

/-- Membership; the search ends at the first range that starts above the code point. -/
def CodeRanges.contains : CodeRanges → Nat → Bool
  | [], _ => false
  | (first, last) :: rest, code =>
      if code < first then false
      else if code ≤ last then true
      else CodeRanges.contains rest code

end StateSpace.Text
