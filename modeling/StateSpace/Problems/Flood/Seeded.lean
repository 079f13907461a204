import StateSpace.Problems.Flood.Game
import StateSpace.Random.Generator

/-!
Flooding games on boards drawn from a seed.
-/
namespace StateSpace.Flood

/-- Why no board can be drawn. -/
inductive DrawError where
  | negativeSeed
  | noColors
  | tooManyColors
  | negativeSize
  | hugeSize
  | hugeBoard
  | noMemory
  | board (e : BoardError)
  deriving DecidableEq

def DrawError.message : DrawError → Option String
  | .negativeSeed => some "expected non-negative integer"
  | .noColors => some "high <= 0"
  | .tooManyColors => some "high is out of bounds for int64"
  | .negativeSize => some "negative dimensions are not allowed"
  | .hugeSize => some "Maximum allowed dimension exceeded"
  | .hugeBoard =>
      some ("array is too big; `arr.size * arr.dtype.itemsize` is larger than the maximum " ++
        "possible size.")
  | .noMemory => none
  | .board e => e.message

/-- A cell takes eight bytes while it is drawn. -/
def cellBytes : Nat := 8

/-- Up to, and without, this a size or a number of bytes can be told. -/
def sizeBound : Int := twoPow 63

def isSigned (size : Int) : Bool := -sizeBound ≤ size && size < sizeBound

def isUnsigned (size : Int) : Bool := sizeBound ≤ size && size < 2 * sizeBound

/-- The most bytes that there is room for. -/
def memory : Nat := twoPow 33

/-- Multiplies the bytes by one size after another; a size of zero is left out. -/
def bytesOf (bytes : Nat) : List Int → Except DrawError Nat
  | [] => .ok bytes
  | size :: rest =>
      if size < 0 then .error .negativeSize
      else if size = 0 then bytesOf bytes rest
      else if bytes * size ≥ sizeBound then .error .hugeBoard
      else bytesOf (bytes * size.toNat) rest

/-- Whether there is room for the cells of a board. -/
def checkRoom (rows cols : Int) : Except DrawError Unit := do
  if !isSigned rows || !isSigned cols then .error .hugeSize
  else
    let bytes ← bytesOf cellBytes [rows, cols]
    if bytes > memory ∧ rows * cols ≠ 0 then .error .noMemory else .ok ()

/-- The low eight bits of an integer, read with their sign. -/
def wrapColor (n : Int) : Int := n.bmod 256

/-- Colours drawn row by row, narrowed to eight bits. -/
def drawCells (seed colors rows cols : Nat) : List Int :=
  (Random.Generator.draws colors (rows * cols) (.ofSeed seed)).map fun (n : Nat) => wrapColor n

def checkColors (colors : Int) : Except DrawError Unit :=
  if colors > sizeBound then .error .tooManyColors
  else if colors ≤ 0 then .error .noColors
  else .ok ()

/-- Whether a board counts as one without cells: two sizes that fit in words of 64 bits, both with
or both without a sign, are multiplied as words. -/
def isEmpty (rows cols : Int) : Bool :=
  if isSigned rows && isSigned cols || isUnsigned rows && isUnsigned cols then
    (rows * cols) % twoPow 64 = 0
  else rows * cols = 0

/-- A board drawn from a seed. A board without cells needs no colours. -/
def drawBoard (rows cols colors seed : Int) : Except DrawError Board := do
  if seed < 0 then .error .negativeSeed
  else
    if !isEmpty rows cols then checkColors colors
    checkRoom rows cols
    let (rows, cols) := (rows.toNat, cols.toNat)
    match Board.ofCells rows cols (drawCells seed.toNat colors.toNat rows cols) with
    | .ok b => .ok b
    | .error e => .error (.board e)

def drawProblem (rows cols colors seed : Int) : Except DrawError (Problem Board Int) :=
  match drawBoard rows cols colors seed with
  | .ok b => .ok (problem b colors)
  | .error e => .error e

end StateSpace.Flood
