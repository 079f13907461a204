import StateSpace.Value
import StateSpace.Decimal.Shortest
import StateSpace.Text.Quoted

/-!
Writing JSON in ASCII: on one line, or with every item on a line of its own. Tuples are written as
lists.
-/
namespace StateSpace.Json

open Text (backslash codesOf doubleQuote hex)

def unitEscape (u : Nat) : List Char := backslash :: 'u' :: hex 4 u

/-- One code point of a text; beyond the basic plane it takes two halves. -/
def escape (code : Nat) : List Char :=
  let c := Char.ofNat code
  if c = doubleQuote || c = backslash then [backslash, c]
  else if c = '\n' then [backslash, 'n']
  else if c = '\r' then [backslash, 'r']
  else if c = '\t' then [backslash, 't']
  else if c = '\x08' then [backslash, 'b']
  else if c = '\x0c' then [backslash, 'f']
  else if 0x20 ≤ code && code < 0x7f then [c]
  else if code < 0x10000 then unitEscape code
  else
    unitEscape (0xd800 + (code - 0x10000) / 0x400) ++
      unitEscape (0xdc00 + (code - 0x10000) % 0x400)

def writeText (s : String) : String :=
  String.ofList (doubleQuote :: (codesOf s).flatMap escape ++ [doubleQuote])

/-- Shortest digits; infinities and NaN by name. -/
def writeReal (x : Binary64) : String :=
  match x.magnitude with
  | .nan => "NaN"
  | .infinite => if x.isNegative then "-Infinity" else "Infinity"
  | .finite _ _ => Decimal.shortest x

/-- How the items of a list or record are set apart: on one line, or indented by a step per
level. -/
inductive Layout where
  | line
  | indented (step : Nat)
  deriving DecidableEq

def Layout.newline : Layout → Nat → String
  | .line, _ => ""
  | .indented step, level => "\n" ++ String.ofList (List.replicate (step * level) ' ')

def Layout.separator : Layout → Nat → String
  | .line, _ => ", "
  | layout, level => "," ++ layout.newline level

def Layout.enclose (layout : Layout) (level : Nat) (opening closing : String)
    (items : List String) : String :=
  if items.isEmpty then opening ++ closing
  else
    opening ++ layout.newline (level + 1) ++ (layout.separator (level + 1)).intercalate items ++
      layout.newline level ++ closing

mutual

def writeAt (layout : Layout) (level : Nat) : Value → String
  | .null => "null"
  | .bool true => "true"
  | .bool false => "false"
  | .int n => toString n
  | .real x => writeReal x
  | .text s => writeText s
  | .list vs => layout.enclose level "[" "]" (writeItems layout (level + 1) vs)
  | .tuple vs => layout.enclose level "[" "]" (writeItems layout (level + 1) vs)
  | .record vs => layout.enclose level "\x7b" "\x7d" (writeFields layout (level + 1) vs)

def writeItems (layout : Layout) (level : Nat) : List Value → List String
  | [] => []
  | v :: vs => writeAt layout level v :: writeItems layout level vs

def writeFields (layout : Layout) (level : Nat) : List (String × Value) → List String
  | [] => []
  | (k, v) :: vs =>
      (writeText k ++ ": " ++ writeAt layout level v) :: writeFields layout level vs

end

def write (layout : Layout) (v : Value) : String := writeAt layout 0 v

end StateSpace.Json
