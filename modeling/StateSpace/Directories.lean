import Std.Data.HashSet
import StateSpace.DirPath

/-!
The directories that there are. A path is followed name by name, and a step back from a directory
leads to the one that holds it; so the names of a path that were not found have to be made in the
order in which they stand.
-/
namespace StateSpace

/-- The names on the way from a root to a directory, the last one first. -/
abbrev Way := List String

structure Directories where
  found : Std.HashSet Way

namespace Directories

def holds (t : Directories) (way : Way) : Bool := way.isEmpty || t.found.contains way

def insert (t : Directories) (way : Way) : Directories := ⟨t.found.insert way⟩

/-- A path's directory and those on the way to it. -/
def above (p : DirPath) : Directories :=
  (p.straight.foldl (fun (t, way) name => (insert t (name :: way), name :: way))
    ((⟨∅⟩, []) : Directories × Way)).1

/-- Where a name leads from a directory; names are found by their bytes. -/
def step (way : Way) (name : String) : Except DirPath.Defect Way :=
  if name = ".." then .ok way.tail
  else if DirPath.isLongName name then .error .tooLong
  else .ok (Text.reread name :: way)

/-- Follows names for as long as they lead to directories; the answer is where that ends, and the
names that are left. -/
def follow (t : Directories) : Way → List String → Except DirPath.Defect (Way × List String)
  | way, [] => .ok (way, [])
  | way, name :: rest => do
      let next ← step way name
      if t.holds next then t.follow next rest else .ok (way, name :: rest)

/-- Follows names and makes every directory that is not there. -/
def make (t : Directories) : Way → List String → Except DirPath.Defect Directories
  | _, [] => .ok t
  | way, name :: rest => do
      let next ← step way name
      (if t.holds next then t else t.insert next).make next rest

/-- The most directories that one path may have missing. -/
def maxMissing : Nat := 989

/-- The directories after those on the way to a path, and the one at its end, have been made. -/
def makeAll (t : Directories) (p : DirPath) : Except DirPath.Defect Directories := do
  p.check
  let (way, rest) ← t.follow [] p.parts
  if maxMissing < rest.length then .error .tooDeep else t.make way rest

/-- Breaks off where no file can be kept at a path whose directory is there. -/
def checkFile (t : Directories) (file : DirPath) : Except DirPath.Defect Unit := do
  file.check
  let (_, rest) ← t.follow [] file.parts
  if rest.isEmpty then .error .isDirectory else .ok ()

end Directories

end StateSpace
