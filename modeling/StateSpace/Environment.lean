import StateSpace.Text.Bytes
import StateSpace.Value

/-!
The variables of an environment, by name. A system keeps only the bytes of their names and texts:
not every variable can be kept, and bytes that stood alone may be read back as a character.
-/
namespace StateSpace

/-- The variables that are set, with their texts. -/
abbrev Environment := List (String × String)

namespace Environment

/-- Why a variable cannot be set. -/
inductive Defect where
  | bytes (e : Text.ByteError)
  | badName
  | noName
  deriving DecidableEq

def Defect.message : Defect → Option String
  | .bytes e => e.message
  | .badName => some "illegal environment variable name"
  | .noName => none

/-- What is wrong with a variable. That its name and text have bytes comes first, and that none of
these is zero comes before the rules for names. -/
def defectOf? (name text : String) : Option Defect :=
  match Text.bytesOf name, Text.bytesOf text with
  | .error .noEncoding, _ | _, .error .noEncoding => some (.bytes .noEncoding)
  | .error .zeroByte, _ | _, .error .zeroByte => some (.bytes .zeroByte)
  | .ok _, .ok _ =>
      if name.contains '=' then some .badName
      else if name = "" then some .noName
      else none

/-- A variable as it is read back after it was set. -/
def keepOne (name text : String) : Except Defect (String × String) :=
  match defectOf? name text with
  | some d => .error d
  | none => .ok (Text.reread name, Text.reread text)

/-- The variables as they are read back after all were set, one after the other. -/
def keep (env : Environment) : Except Defect Environment :=
  env.mapM fun (name, text) => keepOne name text

/-- The variables as values. -/
def toValues (env : Environment) : List (String × Value) :=
  env.map fun (name, text) => (name, .text text)

end Environment

end StateSpace
