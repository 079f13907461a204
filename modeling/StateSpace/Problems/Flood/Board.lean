import StateSpace.Decimal.Numeral
import StateSpace.Display

/-!
Boards of coloured cells. The island is the set of cells joined to the top-left one by neighbours
of its colour; painting recolours it.
-/
namespace StateSpace.Flood

structure Board where
  rows : Nat
  cols : Nat
  cells : Array Int
  size_eq : cells.size = rows * cols
  rows_pos : 0 < rows
  cols_pos : 0 < cols
  deriving DecidableEq

instance : Hashable Board := ⟨fun b => mixHash (hash b.rows) (mixHash (hash b.cols) (hash b.cells))⟩

abbrev Cell := Nat × Nat

namespace Board

def index (b : Board) (c : Cell) : Nat := c.1 * b.cols + c.2

def colorAt (b : Board) (c : Cell) : Int := b.cells.getD (b.index c) 0

/-- The colour of the top-left cell. -/
def color (b : Board) : Int := b.colorAt (0, 0)

def allCells (b : Board) : List Cell :=
  (List.range b.rows).flatMap fun r => (List.range b.cols).map fun c => (r, c)

/-- The cells above, below, to the left and to the right that lie on the board. -/
def neighbours (b : Board) (c : Cell) : List Cell :=
  (if 0 < c.1 then [(c.1 - 1, c.2)] else []) ++
    (if c.1 + 1 < b.rows then [(c.1 + 1, c.2)] else []) ++
    (if 0 < c.2 then [(c.1, c.2 - 1)] else []) ++
    (if c.2 + 1 < b.cols then [(c.1, c.2 + 1)] else [])

/-- A set of cells, one truth value per cell in the order of the board's cells. -/
abbrev Mask := Array Bool

def inMask (b : Board) (mask : Mask) (c : Cell) : Bool := mask.getD (b.index c) false

/-- Adds those of the given cells to the mask that have the colour and are not in it yet, and lists
them. -/
def mark (b : Board) (color : Int) : List Cell → Mask → List Cell × Mask
  | [], mask => ([], mask)
  | c :: cs, mask =>
      if !b.inMask mask c && b.colorAt c == color then
        let (added, mask) := b.mark color cs (mask.setIfInBounds (b.index c) true)
        (c :: added, mask)
      else b.mark color cs mask

/-- Spreads from the waiting cells; as no cell waits twice, as many turns as there are cells
suffice. -/
def spread (b : Board) (color : Int) : Nat → List Cell → Mask → Mask
  | 0, _, mask => mask
  | _, [], mask => mask
  | turns + 1, c :: waiting, mask =>
      let (added, mask) := b.mark color (b.neighbours c) mask
      b.spread color turns (waiting ++ added) mask

/-- The island of the top-left cell. -/
def island (b : Board) : Mask :=
  let seed := (Array.replicate b.cells.size false).setIfInBounds (b.index (0, 0)) true
  b.spread b.color b.cells.size [(0, 0)] seed

/-- For every row, which of its cells belong to the island. -/
def islandRows (b : Board) : List (List Bool) :=
  let island := b.island
  (List.range b.rows).map fun r => (List.range b.cols).map fun c => b.inMask island (r, c)

/-- The colours of the cells next to the island, each once, in the order met. -/
def borderColors (b : Board) : List Int :=
  let island := b.island
  let inside := b.allCells.filter (b.inMask island)
  let border := inside.flatMap fun c => (b.neighbours c).filter fun d => !b.inMask island d
  (border.map b.colorAt).eraseDups

/-- The board with its island in another colour. -/
def paint (b : Board) (color : Int) : Board :=
  let island := b.island
  { b with
    cells := b.cells.mapIdx fun i x => if island.getD i false then color else x
    size_eq := by simp [b.size_eq] }

/-- Hands the colours to the marked cells, one after another. A cell for which none is left keeps
its own. -/
def recolor : List Bool → List Int → List Int → List Int
  | true :: marks, _ :: cells, color :: colors => color :: recolor marks cells colors
  | _ :: marks, x :: cells, colors => x :: recolor marks cells colors
  | _, cells, _ => cells

theorem length_recolor (marks : List Bool) (cells colors : List Int) :
    (recolor marks cells colors).length = cells.length := by
  fun_induction recolor marks cells colors <;> simp_all

/-- How many cells the island has. -/
def islandSize (b : Board) : Nat := b.island.toList.count true

/-- The board with the cells of its island in the given colours, row by row. -/
def paintEach (b : Board) (colors : List Int) : Board :=
  { b with
    cells := (recolor b.island.toList b.cells.toList colors).toArray
    size_eq := by simp [length_recolor, b.size_eq] }

def isUniform (b : Board) : Bool := b.cells.all fun x => x == b.color

/-- How many colours there are outside the island. -/
def outsideColors (b : Board) : Nat :=
  let island := b.island
  let outside := b.allCells.filter fun c => !b.inMask island c
  (outside.map b.colorAt).eraseDups.length

def maxColor (b : Board) : Int := b.cells.foldl max b.color

def toRows (b : Board) : List (List Int) :=
  (List.range b.rows).map fun r => (List.range b.cols).map fun c => b.colorAt (r, c)

/-- A board names itself and its rows, from within two levels of its own. -/
def write (room : Nat) (b : Board) : Except Unwritable String := do
  let rows := b.toRows.map fun row => Value.list (row.map .int)
  .ok ("FloodBoard(" ++ (← (Value.list rows).writePlain (room - 2)) ++ ")")

end Board

instance : Display Board := ⟨Board.write, fun room => Board.write (room - 1)⟩

/-! ### Boards from data -/

/-- Why data make no board. -/
inductive BoardError where
  | ragged
  | tooDeep
  | shape (dims : List Nat)
  | colorRange
  | notNumber
  | undefined
  | badNumeral (text : String) (e : Decimal.IntegerError)
  | nested
  | wrongCount (given wanted : Nat)
  deriving DecidableEq

def BoardError.message : BoardError → Option String
  | .shape dims =>
      some ("Flood-It board must be a non-empty 2D grid, got shape " ++
        Brackets.round.enclose (dims.map toString))
  | .undefined => some "cannot convert float NaN to integer"
  | .badNumeral text e => some (e.message text)
  | .wrongCount given wanted =>
      some (s!"NumPy boolean array indexing assignment cannot assign {given} input values to " ++
        s!"the {wanted} output values where the mask is true")
  | _ => none

mutual

/-- The lengths of nested lists, outermost first, if all lists of one level agree. -/
def shapeOf : Value → Option (List Nat)
  | .list vs =>
      match shapesOf vs with
      | none => none
      | some [] => some [0]
      | some (dims :: rest) =>
          if rest.all (· == dims) then some ((rest.length + 1) :: dims) else none
  | _ => some []

def shapesOf : List Value → Option (List (List Nat))
  | [] => some []
  | v :: vs =>
      match shapeOf v, shapesOf vs with
      | some dims, some rest => some (dims :: rest)
      | _, _ => none

end

def minColor : Int := -128

def topColor : Int := 127

def checkColor (n : Int) : Except BoardError Int :=
  if minColor ≤ n ∧ n ≤ topColor then .ok n else .error .colorRange

/-- The colour of a real, which loses its fraction. -/
def colorOfReal (x : Binary64) : Except BoardError Int :=
  match x.magnitude with
  | .nan => .error .undefined
  | .infinite => .error .colorRange
  | .finite mantissa exponent =>
      let (num, den) := Binary64.scale mantissa 1 exponent
      let n : Int := (num / den : Nat)
      checkColor (if x.isNegative then -n else n)

/-- A colour from data; truth values count as 0 and 1. -/
def colorOf : Value → Except BoardError Int
  | .int n => checkColor n
  | .bool b => .ok (if b then 1 else 0)
  | .real x => colorOfReal x
  | .text s =>
      match Decimal.integer s with
      | .ok n => checkColor n
      | .error e => .error (.badNumeral s e)
  | _ => .error .notNumber

/-- A board of the given size from its cells row by row. -/
def Board.ofCells (rows cols : Nat) (cells : List Int) : Except BoardError Board :=
  if h : cells.length = rows * cols ∧ 0 < rows ∧ 0 < cols then
    .ok { rows, cols, cells := cells.toArray, size_eq := by simp [h.1], rows_pos := h.2.1,
          cols_pos := h.2.2 }
  else
    .error (.shape [rows, cols])

mutual

/-- What stands in nested lists, in order. -/
def leaves : Value → List Value
  | .list vs => leavesOf vs
  | v => [v]

def leavesOf : List Value → List Value
  | [] => []
  | v :: vs => leaves v ++ leavesOf vs

end

/-- How deep lists may stand inside one another. -/
def maxDims : Nat := 64

/-- The lengths of nested lists, outermost first, and the colours in them. That the lists agree in
length comes first, the colours come second. -/
def colorsOf (v : Value) : Except BoardError (List Nat × List Int) := do
  match shapeOf v with
  | none => .error .ragged
  | some dims =>
      if dims.length > maxDims then .error .tooDeep
      else .ok (dims, ← (leaves v).mapM colorOf)

/-- A board from two levels of lists. -/
def Board.ofValue (v : Value) : Except BoardError Board := do
  match ← colorsOf v with
  | ([rows, cols], cells) => Board.ofCells rows cols cells
  | (dims, _) => .error (.shape dims)

end StateSpace.Flood
