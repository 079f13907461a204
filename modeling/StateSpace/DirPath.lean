import StateSpace.Text.Bytes

/-!
Paths of directories: a root, which may be missing, and the names below it.
-/
namespace StateSpace

/-- What a path starts from. Two leading slashes are a root of their own. -/
inductive PathRoot where
  | relative
  | slash
  | doubleSlash
  deriving DecidableEq

def PathRoot.text : PathRoot → String
  | .relative => ""
  | .slash => "/"
  | .doubleSlash => "//"

/-- The root that a number of leading slashes stands for. -/
def PathRoot.ofSlashes : Nat → PathRoot
  | 0 => .relative
  | 2 => .doubleSlash
  | _ => .slash

structure DirPath where
  root : PathRoot
  parts : List String
  deriving DecidableEq

namespace DirPath

/-- Empty parts and single dots say nothing; double dots stay, as they may lead through a link. -/
def isPart (part : String) : Bool := part != "" && part != "."

def ofText (text : String) : DirPath :=
  { root := .ofSlashes (text.toList.takeWhile (· == '/')).length
    parts := (text.splitOn "/").filter isPart }

/-- The text of a path; a path without root and parts is the current directory. -/
def text (p : DirPath) : String :=
  if p.root = .relative ∧ p.parts = [] then "." else p.root.text ++ "/".intercalate p.parts

/-- The most bytes that a name may have. -/
def maxName : Nat := 255

/-- The most bytes that the text of a path may have. -/
def maxLength : Nat := 4095

/-- Why there can be no file or directory at a path. -/
inductive Defect where
  | bytes (e : Text.ByteError)
  | tooLong
  | tooDeep
  | isDirectory
  deriving DecidableEq

def Defect.message : Defect → Option String
  | .bytes e => e.message
  | _ => none

def isLongName (part : String) : Bool :=
  match Text.bytesOf part with
  | .ok bytes => maxName < bytes.length
  | .error _ => false

/-- Breaks off where the text of a path cannot be handed to the system. -/
def check (p : DirPath) : Except Defect Unit :=
  match Text.bytesOf p.text with
  | .error e => .error (.bytes e)
  | .ok bytes => if maxLength < bytes.length then .error .tooLong else .ok ()

/-- The names on the way to a path, after every step back is taken. -/
def straight (p : DirPath) : List String :=
  (p.parts.foldl (fun done part => if part = ".." then done.drop 1 else part :: done) []).reverse

/-- The way from a directory to a path below it, by the names that are found there. Both start from
a root. -/
def below? (p dir : DirPath) : Option String :=
  if p.root ≠ .relative ∧ dir.straight.isPrefixOf p.straight then
    some ("/".intercalate ((p.straight.drop dir.straight.length).map Text.reread))
  else none

/-- The path of an entry of a directory. -/
def entry (p : DirPath) (name : String) : DirPath := { p with parts := p.parts ++ [name] }

end DirPath

end StateSpace
