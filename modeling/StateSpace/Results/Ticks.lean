import StateSpace.Decimal.Shortest
import StateSpace.Number

/-!
The ticks of an axis that measures numbers: at most ten of them, a round step apart, from the last
at or below the lowest number to the first at or above the highest. Near the end of the numbers that
there are an axis may have no ticks.
-/
namespace StateSpace.Results

/-- Why an axis has no ticks: there is no telling how many there are, or one of them is infinite. -/
inductive TickError where
  | uncounted
  | unbounded
  deriving DecidableEq

/-- What an axis reaches from and to. -/
structure Range where
  low : Binary64
  high : Binary64

namespace Range

/-- A decimal fraction. -/
def decimal (digits : Nat) (exponent : Int) : Binary64 := Binary64.ofDecimal false digits exponent

def isFinite (r : Range) : Bool := r.low.isFinite && r.high.isFinite

def symmetric (x : Binary64) : Range := ⟨Binary64.zero - x, x⟩

/-- The magnitude of the end that is further from zero. -/
def reach (r : Range) : Binary64 := r.low.abs.larger r.high.abs

/-- A range that is too small to be told from a point is widened by a share of its ends; one about
zero, or without ends, becomes the share to both sides. -/
def widened (share small : Binary64) (r : Range) : Range :=
  if !r.isFinite then symmetric share
  else if r.reach.lt (decimal 1 6 / small * decimal 22250738585072014 (-324)) then symmetric share
  else if !(r.reach * small).lt (r.high - r.low) then
    ⟨r.low - share * r.low.abs, r.high + share * r.high.abs⟩
  else r

/-- The range of numbers, unless there are none that are finite. -/
def ofNumbers? (xs : List Binary64) : Option Range :=
  match xs.filter Binary64.isFinite with
  | [] => none
  | x :: rest => some (rest.foldl (fun r y => ⟨r.low.smaller y, r.high.larger y⟩) ⟨x, x⟩)

/-- The share by which an axis reaches beyond its numbers. -/
def margin : Binary64 := decimal 5 (-2)

/-- What an axis reaches from and to that shows a range of numbers. Where it stands on zero it does
not reach beyond it. -/
def ofAxis (standsOnZero : Bool) (numbers : Option Range) : Range :=
  let r := (numbers.getD (symmetric Binary64.infinity)).widened (decimal 5 (-2)) (decimal 1 (-15))
  let slack := decimal 1 (-5) * (r.high - r.low).abs
  let beyond := (r.high - r.low) * margin
  let beyond := if beyond.isFinite then beyond else Binary64.zero
  let low := r.low - beyond
  let high := r.high + beyond
  let low :=
    if standsOnZero && Binary64.zero.lt (r.low + slack) then low.larger Binary64.zero else low
  let high :=
    if standsOnZero && !Binary64.zero.lt (r.high - slack) then high.smaller Binary64.zero else high
  widened (decimal 1 (-12)) (decimal 1 (-13)) ⟨low, high⟩

/-- The power of ten at or below a number, if it is finite and not zero. -/
def powerBelow? (x : Binary64) : Option Binary64 :=
  match x.magnitude with
  | .finite mantissa exponent =>
      let (num, den) := Binary64.scale mantissa 1 exponent
      let leading :=
        Decimal.leadingExponent num den 24 (Decimal.exponentAbove mantissa exponent)
      if mantissa = 0 then none else some (decimal 1 leading)
  | _ => none

/-- The steps that ticks may be apart, in tenths of a power of ten. -/
def steps : List Binary64 :=
  [ decimal 1 (-1), decimal 2 (-1), decimal 25 (-2), decimal 5 (-1), decimal 1 0, decimal 2 0,
    decimal 25 (-1), decimal 5 0, decimal 1 1, decimal 2 1 ]

/-- The most parts that ticks divide an axis into. -/
def parts : Binary64 := decimal 9 0

/-- What the ticks of a range far from zero are counted from. -/
def origin? (r : Range) : Option Binary64 :=
  let middle := (r.low + r.high) / decimal 2 0
  if (middle.abs / (r.high - r.low).abs).lt (decimal 1 2) then some Binary64.zero
  else (powerBelow? middle.abs).map fun x => if middle.isNegative then Binary64.zero - x else x

/-- The number of steps up to a number or just beyond it. -/
def stepsTo (step slack x : Binary64) : Binary64 :=
  let rest := x.modulo step
  if (rest / step).abs.lt slack then x.floorDiv step else x.floorDiv step + Binary64.one

/-- Up to this share of a step an axis may end beyond a tick. -/
def slackOf (origin step : Binary64) : Binary64 :=
  ((origin.abs / step * decimal 1 (-12)).larger (decimal 1 (-10))).smaller (decimal 4999 (-4))

/-- Why an axis has no ticks, if it has none. -/
def tickError? (r : Range) : Option TickError :=
  let r := r.widened (decimal 1 (-13)) (decimal 1 (-14))
  match r.origin?, powerBelow? ((r.high - r.low).abs / parts) with
  | some origin, some unit =>
      let low := r.low - origin
      let high := r.high - origin
      match (steps.map (· * unit)).find? fun step => !step.lt ((high - low) / parts) with
      | none => some .uncounted
      | some step =>
          let first := low.floorDiv step * step
          let count := stepsTo step (slackOf origin step) (high - first)
          if !(low - first).isFinite || !count.isFinite then some .uncounted
          else if (count * step + first + origin).isFinite then none
          else some .unbounded
  | _, _ => some .uncounted

end Range

end StateSpace.Results
