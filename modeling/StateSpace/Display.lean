import StateSpace.Defect
import StateSpace.Value
import StateSpace.Decimal.Shortest
import StateSpace.Text.Quoted

/-!
How values and states stand in messages. The quoted form tells kinds apart: texts stand in quotes,
lists and tuples in brackets; the plain form of a text is the text itself. Not everything can be
written: an integer may have too many digits, and what is nested needs room. The room is the number
of levels that the one who writes still has; a value takes a level, and its items are written in the
room that is left.
-/
namespace StateSpace

/-- States that are written into messages, in the room that is there. -/
class Display (σ : Type) where
  quoted : Nat → σ → Except Unwritable String
  plain : Nat → σ → Except Unwritable String

/-- What encloses items, and whether a single item is followed by a comma. -/
structure Brackets where
  opening : String
  closing : String
  loneComma : Bool

def Brackets.square : Brackets := ⟨"[", "]", false⟩

/-- Round brackets; a comma keeps a single item apart from a value in parentheses. -/
def Brackets.round : Brackets := ⟨"(", ")", true⟩

def Brackets.enclose (b : Brackets) (items : List String) : String :=
  let comma := if b.loneComma && items.length == 1 then "," else ""
  b.opening ++ ", ".intercalate items ++ comma ++ b.closing

namespace Value

mutual

/-- The quoted form: lists stand in square brackets, tuples in round ones. -/
def quoted : Value → String
  | .null => "None"
  | .bool true => "True"
  | .bool false => "False"
  | .int n => toString n
  | .real x => Decimal.shortest x
  | .text s => Text.quoted s
  | .list vs => Brackets.square.enclose (quotedItems vs)
  | .tuple vs => Brackets.round.enclose (quotedItems vs)
  | .record vs => "\x7b" ++ ", ".intercalate (quotedFields vs) ++ "\x7d"

def quotedItems : List Value → List String
  | [] => []
  | v :: vs => quoted v :: quotedItems vs

def quotedFields : List (String × Value) → List String
  | [] => []
  | (k, v) :: vs => (Text.quoted k ++ ": " ++ quoted v) :: quotedFields vs

end

/-- The plain form: that of a text is the text itself. -/
def plain : Value → String
  | .text s => s
  | v => v.quoted

mutual

/-- A value and all that it holds, in the order of writing, with the levels that they stand on. -/
def parts (level : Nat) : Value → List (Nat × Value)
  | .list vs => (level, .list vs) :: partsAmong (level + 1) vs
  | .tuple vs => (level, .tuple vs) :: partsAmong (level + 1) vs
  | .record vs => (level, .record vs) :: partsInFields (level + 1) vs
  | v => [(level, v)]

def partsAmong (level : Nat) : List Value → List (Nat × Value)
  | [] => []
  | v :: vs => parts level v ++ partsAmong level vs

def partsInFields (level : Nat) : List (String × Value) → List (Nat × Value)
  | [] => []
  | (k, v) :: vs => (level, .text k) :: (parts level v ++ partsInFields level vs)

end

/-- Why a part of a value cannot be written in some room, apart from what it holds itself. -/
def obstacleAt? (room : Nat) : Nat × Value → Option Unwritable
  | (level, part) =>
      if room < level then some .nesting
      else
        match part with
        | .int n => if Decimal.isWritable n then none else some .digits
        | _ => none

/-- What keeps a value from being written: the first obstacle that is met. -/
def obstacle? (room : Nat) (v : Value) : Option Unwritable :=
  (v.parts 1).findSome? (obstacleAt? room)

/-- The quoted form, if there is no obstacle to it. -/
def write (room : Nat) (v : Value) : Except Unwritable String :=
  match v.obstacle? room with
  | none => .ok v.quoted
  | some u => .error u

/-- The plain form. A text needs no room, an integer a level; what is neither is asked for its
quoted form, and the question takes one more level. -/
def writePlain (room : Nat) : Value → Except Unwritable String
  | .text s => .ok s
  | .int n => (Value.int n).write room
  | v => v.write (room - 1)

/-- The levels that there are where nothing else is said of the room. -/
def usualRoom : Nat := 990

end Value

/-- States that are written as values are. -/
abbrev Display.ofValue {σ : Type} (f : σ → Value) : Display σ :=
  ⟨fun room s => (f s).write room, fun room s => (f s).writePlain room⟩

instance : Display Value := .ofValue id

instance : Display Int := .ofValue .int

instance : Display String := .ofValue .text

instance : Display (Int × Int) := .ofValue fun p => .tuple [.int p.1, .int p.2]

end StateSpace
