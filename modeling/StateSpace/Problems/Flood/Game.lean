import StateSpace.Problem
import StateSpace.Problems.Flood.Board

/-!
The flooding game: paint the island until the board has one colour. There is one rule per colour,
and it applies where it makes the island grow.
-/
namespace StateSpace.Flood

/-- Recolours the island in a colour that touches it. -/
def paintRule (color : Int) : Rule Board :=
  Rule.unit ("paint(" ++ toString color ++ ")") fun b =>
    if color = b.color ∨ ¬ b.borderColors.contains color then none else some (b.paint color)

/-- The game with the colours from 0 up to, and without, `colors`; the estimate counts the colours
outside. -/
def problem (board : Board) (colors : Int) : Problem Board Int :=
  { initial := board
    isGoal := Board.isUniform
    rules := (List.range colors.toNat).map fun (c : Nat) => paintRule c
    heuristic := some fun b => .ok (some b.outsideColors) }

/-- As many colours as the board's cells need. -/
def defaultColors (board : Board) : Int := board.maxColor + 1

/-- Painting as data ask for it: in one colour, or in one for every cell of the island. -/
def paintChecked (b : Board) (v : Value) : Except BoardError Board := do
  match ← colorsOf v with
  | ([], [color]) | ([_], [color]) => .ok (b.paint color)
  | ([_], colors) =>
      if colors.length = b.islandSize then .ok (b.paintEach colors)
      else .error (.wrongCount colors.length b.islandSize)
  | _ => .error .nested

end StateSpace.Flood
