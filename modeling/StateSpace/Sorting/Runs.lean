import StateSpace.Sorting.Merge

/-!
A stable sort that makes use of runs, stretches that are in order already. The list is cut into runs
from its front; a falling run is turned round, and a short one is filled up by insertion. Runs that
stand side by side are merged as soon as the places where they meet say so: a border is the deeper
the more halvings of the whole list it takes to tell the middles of its two runs apart, and deeper
borders go first.

Where items have no order between them there is no sorted list. Where the order is no order, the
outcome is fixed by this way of sorting.
-/
namespace StateSpace.Sorting

variable {α : Type}

/-! ### Cutting off a run -/

/-- How many items after `last` go on falling, or go on not falling. -/
def runLength? (below? : α → α → Option Bool) (falls : Bool) (last : α) :
    List α → Option Nat
  | [] => some 0
  | x :: rest =>
      match below? x last with
      | none => none
      | some b => if b = falls then (runLength? below? falls x rest).map (· + 1) else some 0

/-- The run in front, in order, and what comes after it. -/
def firstRun? (below? : α → α → Option Bool) : List α → Option (List α × List α)
  | x :: y :: rest => do
      let falls ← below? y x
      let more ← runLength? below? falls y rest
      let run := x :: y :: rest.take more
      some (if falls then run.reverse else run, rest.drop more)
  | short => some (short, [])

/-- Puts an item behind all that are not above it, where it belongs by halving. -/
def insert? (below? : α → α → Option Bool) (sorted : List α) (x : α) : Option (List α) :=
  (halve? (askedAt (fun y => (below? x y).map not) sorted) 0 sorted.length).map fun place =>
    sorted.take place ++ x :: sorted.drop place

/-- The leading binary digits of a length that leave less than 64, one more if a one is cut off. -/
def leastLength (cut : Nat) (length : Nat) : Nat :=
  if length < 64 then length + cut else leastLength (max cut (length % 2)) (length / 2)
  termination_by length

/-- The run in front, filled up to a least length, and what comes after it. -/
def fullRun? (below? : α → α → Option Bool) (least : Nat) (items : List α) :
    Option (List α × List α) := do
  let (run, rest) ← firstRun? below? items
  let missing := least - run.length
  let run ← (rest.take missing).foldlM (insert? below?) run
  some (run, rest.drop missing)

/-! ### Merging runs -/

/-- A run at its place, and the depth of the border behind it. -/
structure Run (α : Type) where
  start : Nat
  items : List α
  depth : Nat

/-- How many halvings of `size` tell two numbers apart. -/
def depthFrom (size : Nat) : Nat → Nat → Nat → Nat
  | 0, _, _ => 0
  | turns + 1, a, b =>
      if size ≤ a then depthFrom size turns (2 * (a - size)) (2 * (b - size)) + 1
      else if size ≤ b then 1
      else depthFrom size turns (2 * a) (2 * b) + 1

/-- The depth of the border between a run and one of the given length behind it; both middles are
counted in halves. -/
def borderDepth (size : Nat) (run : Run α) (length : Nat) : Nat :=
  let middle := 2 * run.start + run.items.length
  depthFrom size (size.log2 + 2) middle (middle + run.items.length + length)

/-- The runs so far, the latest first, and the patience for the next merge. -/
abbrev Stack (α : Type) := List (Run α) × Nat

def mergeRuns? (below? : α → α → Option Bool) (patience : Nat) (left right : Run α) :
    Option (Run α × Nat) := do
  let (items, patience) ← merge? below? patience left.items right.items
  some ({ left with items }, patience)

/-- Merges the latest runs as long as the border before them is deeper than a new one. -/
def settle? (below? : α → α → Option Bool) (depth : Nat) : Stack α → Option (Stack α)
  | (right :: left :: runs, patience) =>
      if left.depth > depth then do
        let (run, patience) ← mergeRuns? below? patience left right
        settle? below? depth (run :: runs, patience)
      else some (right :: left :: runs, patience)
  | stack => some stack
  termination_by stack => stack.1.length

/-- Adds a run behind all others. -/
def push? (below? : α → α → Option Bool) (size start : Nat) (items : List α) (stack : Stack α) :
    Option (Stack α) :=
  match stack with
  | ([], patience) => some ([⟨start, items, 0⟩], patience)
  | (last :: runs, patience) => do
      let depth := borderDepth size last items.length
      let (runs, patience) ← settle? below? depth (last :: runs, patience)
      match runs with
      | [] => none
      | last :: runs => some (⟨start, items, 0⟩ :: { last with depth } :: runs, patience)

/-- Merges all runs, the latest first, but the shorter neighbour of a run before the longer. -/
def collapse? (below? : α → α → Option Bool) : Stack α → Option (List α)
  | ([], _) => some []
  | ([run], _) => some run.items
  | ([right, left], patience) => do
      let (run, _) ← mergeRuns? below? patience left right
      some run.items
  | (right :: middle :: left :: runs, patience) =>
      if left.items.length < right.items.length then do
        let (run, patience) ← mergeRuns? below? patience left middle
        collapse? below? (right :: run :: runs, patience)
      else do
        let (run, patience) ← mergeRuns? below? patience middle right
        collapse? below? (run :: left :: runs, patience)
  termination_by stack => stack.1.length

/-- Cuts the items from `start` on into runs and merges them all. -/
def sortFrom? (below? : α → α → Option Bool) (size least : Nat) :
    Nat → Nat → Stack α → List α → Option (List α)
  | _, _, stack, [] => collapse? below? stack
  | 0, _, _, _ => none
  | turns + 1, start, stack, items => do
      let (run, rest) ← fullRun? below? least items
      let stack ← push? below? size start run stack
      sortFrom? below? size least turns (start + run.length) stack rest

/-- The items in rising order, equals in the order given. -/
def sort? (below? : α → α → Option Bool) (items : List α) : Option (List α) :=
  let size := items.length
  sortFrom? below? size (leastLength 0 size) size 0 ([], patience) items

end StateSpace.Sorting
