import StateSpace.Sorting.Halving

/-!
Merging two runs that stand side by side into one, equals of the left run first. What is in place
already is cut off at both ends, and the rest is merged from the end where the shorter run lies.

Items leave one by one until one of the runs has won several times in a row; from then on the runs
leave in stretches found by leaps, as long as the stretches stay long. For a real order all this
changes nothing but the number of comparisons.
-/
namespace StateSpace.Sorting

variable {α : Type}

/-- The end of both runs at which they are merged. -/
inductive End where
  | front
  | back
  deriving DecidableEq

/-- Two runs being merged: what is left of either, next to leave first, and what has left, latest
first. -/
structure Merge (α : Type) where
  left : List α
  right : List α
  gone : List α

/-- How often a run has to win in a row before stretches are looked for, at the start. -/
def patience : Nat := 7

/-- The length from which on a stretch is long. -/
def longStretch : Nat := 7

/-- Items in their order, and the patience that is left for the next merge. -/
abbrev Merged (α : Type) := List α × Nat

namespace Merge

def takeLeft (m : Merge α) (count : Nat) : Merge α :=
  { m with left := m.left.drop count, gone := (m.left.take count).reverse ++ m.gone }

def takeRight (m : Merge α) (count : Nat) : Merge α :=
  { m with right := m.right.drop count, gone := (m.right.take count).reverse ++ m.gone }

/-- What is still to leave, once that is settled: one run is empty, or the shorter one is down to an
item that leaves last. -/
def rest? (e : End) (m : Merge α) : Option (List α) :=
  let (shorter, longer) :=
    match e with
    | .front => (m.left, m.right)
    | .back => (m.right, m.left)
  match shorter, longer with
  | items, [] => some items
  | [], items => some items
  | [last], items => some (items ++ [last])
  | _, _ => none

/-- All items in their order, when `rest` is still to leave. -/
def close (e : End) (m : Merge α) (rest : List α) : List α :=
  match e with
  | .front => m.gone.reverse ++ rest
  | .back => rest.reverse ++ m.gone

/-- Goes on unless the merge is settled. -/
def orClose (e : End) (patience : Nat) (m : Merge α) (go : Merge α → Option (Merged α)) :
    Option (Merged α) :=
  match m.rest? e with
  | some rest => some (m.close e rest, patience)
  | none => go m

end Merge

/-- A question about items, put to their places. -/
def askedAt (ask : α → Option Bool) (items : List α) : Question :=
  let places := items.toArray
  fun n => places[n]?.bind ask

/-- How many items of a run leave at an end, where `isLow` tells those that belong to the front. -/
def stretch? (e : End) (isLow : α → Option Bool) (run : List α) : Option Nat :=
  match e with
  | .front => leap? (askedAt isLow run) run.length 0
  | .back =>
      (leap? (askedAt isLow run.reverse) run.length (run.length - 1)).map (run.length - ·)

mutual

/-- Merges item by item; the counts are the latest wins in a row. -/
def byItem? (below? : α → α → Option Bool) (e : End) (turns patience leftWins rightWins : Nat)
    (m : Merge α) : Option (Merged α) :=
  match turns, m.left, m.right with
  | turns + 1, a :: _, b :: _ => do
      let isBelow ← below? b a
      if isBelow = (e == .front) then
        (m.takeRight 1).orClose e patience fun m =>
          if rightWins + 1 ≥ patience then byStretch? below? e turns (patience + 1) m
          else byItem? below? e turns patience 0 (rightWins + 1) m
      else
        (m.takeLeft 1).orClose e patience fun m =>
          if leftWins + 1 ≥ patience then byStretch? below? e turns (patience + 1) m
          else byItem? below? e turns patience (leftWins + 1) 0 m
  | _, _, _ => none

/-- Merges stretch by stretch: those of the left run that leave before the next item of the right
one, that item, and the other way round. Every round lowers the patience, and giving up raises
it. -/
def byStretch? (below? : α → α → Option Bool) (e : End) (turns patience : Nat) (m : Merge α) :
    Option (Merged α) :=
  match turns, m.right with
  | turns + 1, b :: _ => do
      let patience := max 1 (patience - 1)
      let leftCount ← stretch? e (fun a => (below? b a).map not) m.left
      (m.takeLeft leftCount).orClose e patience fun m =>
        (m.takeRight 1).orClose e patience fun m =>
          match m.left with
          | [] => none
          | a :: _ => do
              let rightCount ← stretch? e (fun b => below? b a) m.right
              (m.takeRight rightCount).orClose e patience fun m =>
                (m.takeLeft 1).orClose e patience fun m =>
                  if leftCount ≥ longStretch ∨ rightCount ≥ longStretch then
                    byStretch? below? e turns patience m
                  else byItem? below? e turns (patience + 1) 0 0 m
  | _, _ => none

end

/-- Merges two runs from an end on, where the first item to leave is known. -/
def mergeFrom? (below? : α → α → Option Bool) (e : End) (patience : Nat) (left right : List α) :
    Option (Merged α) :=
  let turns := left.length + right.length
  match e with
  | .front =>
      ((⟨left, right, []⟩ : Merge α).takeRight 1).orClose e patience
        (byItem? below? e turns patience 0 0)
  | .back =>
      ((⟨left.reverse, right.reverse, []⟩ : Merge α).takeLeft 1).orClose e patience
        (byItem? below? e turns patience 0 0)

/-- Merges two runs that stand side by side; none where two items have no order. -/
def merge? (below? : α → α → Option Bool) (patience : Nat) (left right : List α) :
    Option (Merged α) :=
  match right with
  | [] => some (left, patience)
  | b :: _ => do
      let kept ← leap? (askedAt (fun a => (below? b a).map not) left) left.length 0
      let (low, left) := left.splitAt kept
      match left.getLast? with
      | none => some (low ++ right, patience)
      | some a => do
          let moved ← leap? (askedAt (fun b => below? b a) right) right.length (right.length - 1)
          let (right, high) := right.splitAt moved
          if right.isEmpty then
            some (low ++ left ++ high, patience)
          else do
            let e : End := if left.length ≤ right.length then .front else .back
            let (items, patience) ← mergeFrom? below? e patience left right
            some (low ++ items ++ high, patience)

end StateSpace.Sorting
