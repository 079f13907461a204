import StateSpace.Decimal.Fixed
import StateSpace.Display
import StateSpace.Results.Rows

/-!
Results as a table of text, one line per row.
-/
namespace StateSpace.Results

/-- The lengths of nested lists, from the outside in. -/
abbrev Shape := List Nat

/-- Lengths as they stand in messages. -/
def Shape.text (s : Shape) : String := Brackets.round.enclose (s.map toString)

/-- Why rows cannot be shown. -/
inductive ShowError where
  | noName
  | notComparable
  | notNumber
  | tooLarge
  | noEncoding
  | noGlyph
  | noSum
  | ragged
  | mismatch (places heights : Shape)
  | uncounted
  | noPlace
  deriving DecidableEq

def ShowError.message : ShowError → Option String
  | .mismatch places heights =>
      some ("shape mismatch: objects cannot be broadcast to a single shape.  " ++
        "Mismatch is between arg 0 with shape " ++ Shape.text places ++
        " and arg 1 with shape " ++ Shape.text heights ++ ".")
  | .uncounted => some "arange: cannot compute length"
  | .noPlace => some "cannot convert float NaN to integer"
  | _ => none

/-- What a row is called: the value beside `algo`. -/
def nameOf (row : Row) : Except ShowError Value :=
  match row.lookup "algo" with
  | some name => .ok name
  | none => .error .noName

/-- The text of a cell: a real has six places, an integer or a truth value its plain text. -/
def cellText : Value → String
  | .real x => Decimal.fixed 6 x
  | .int n => toString n
  | .bool b => (Value.bool b).plain
  | _ => "n/a"

def tableLine (cells : List String) : String := "| " ++ " | ".intercalate cells ++ " |"

def tableHead : List String :=
  [ "| Strategy | Cost | Steps | Nodes Expanded | Passes | Time (s) | Peak KB |",
    "|---|---:|---:|---:|---:|---:|---:|" ]

/-- The fields behind the name, in the order of the columns. -/
def tableColumns : List String :=
  ["cost", "steps", "nodes_expanded", "passes", "time_s", "peak_kb"]

def tableRow (row : Row) : Except ShowError String := do
  let name ← nameOf row
  let cells := tableColumns.map fun column => cellText ((row.lookup column).getD .null)
  .ok (tableLine (name.plain :: cells))

def table (rows : List Row) : Except ShowError String := do
  let lines ← rows.mapM tableRow
  .ok ("\n".intercalate (tableHead ++ lines))

end StateSpace.Results
