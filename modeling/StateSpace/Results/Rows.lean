import StateSpace.Decimal.Numeral
import StateSpace.DirPath
import StateSpace.Json.Reader
import StateSpace.Text.Lines

/-!
The rows of a results document: one record per run, of which the successful ones count.
-/
namespace StateSpace.Results

/-- A row's fields by name. -/
abbrev Row := List (String × Value)

/-- Why a document gives no rows. -/
inductive RowsError where
  | missing (file : DirPath)
  | unreadable (e : Json.ReadError)
  | noRecord
  | noList
  | noRow
  | noneSuccessful
  deriving DecidableEq

def RowsError.message : RowsError → Option String
  | .missing file =>
      some ("Missing " ++ file.text ++ ". Run: python -m gps_lab.benchmarks.run_all")
  | .unreadable (.tooLong digits) => some ((Decimal.IntegerError.tooLong digits).message "")
  | .noneSuccessful => some "No successful rows to plot."
  | _ => none

def rowOf : Value → Except RowsError Row
  | .record fields => .ok fields
  | _ => .error .noRow

def isSuccessful (row : Row) : Bool :=
  match row.lookup "success" with
  | some v => v.isTruthy
  | none => false

/-- The successful rows of a document. -/
def ofDocument (document : Value) : Except RowsError (List Row) :=
  match document with
  | .record fields =>
      match ((fields.lookup "results").getD (.list [])).items? with
      | none => .error .noList
      | some items => do
          let rows ← items.mapM rowOf
          match rows.filter isSuccessful with
          | [] => .error .noneSuccessful
          | successful => .ok successful
  | _ => .error .noRecord

/-- The successful rows of a file with the given text, if there is such a file. -/
def load (file : DirPath) (text : Option String) : Except RowsError (List Row) :=
  match text with
  | none => .error (.missing file)
  | some text =>
      match Json.read (Text.readLines text) with
      | .error e => .error (.unreadable e)
      | .ok document => ofDocument document

end StateSpace.Results
