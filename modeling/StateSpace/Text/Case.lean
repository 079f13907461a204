import StateSpace.Text.Case.Table

/-!
Upper and lower case of a whole text, with the maps to several characters and the final form of the
Greek sigma.
-/
namespace StateSpace.Text

namespace Case

/-- The image of one character: an expansion, the run that covers it, or the character itself. -/
def mapChar (expansions : List (Nat × List Nat)) (runs : List (Nat × Nat × Nat × Int))
    (c : Char) : List Char :=
  match expansions.lookup c.toNat with
  | some image => image.map Char.ofNat
  | none =>
      match (runs.map Run.ofTuple).find? (·.covers c.toNat) with
      | some run => [Char.ofNat (c.toNat + run.shift).toNat]
      | none => [c]

def isIgnorable (c : Char) : Bool := ignorableRanges.contains c.toNat

def isCased (c : Char) : Bool := casedRanges.contains c.toNat

/-- Whether the nearest character that is not ignorable has case. -/
def meetsCased (cs : List Char) : Bool :=
  match cs.dropWhile isIgnorable with
  | [] => false
  | c :: _ => isCased c

/-- Lower case of the characters after `before`, which holds what came earlier, last first. -/
def lowerFrom (before : List Char) : List Char → List Char
  | [] => []
  | c :: rest =>
      let image :=
        if c = 'Σ' then [if meetsCased before && !meetsCased rest then 'ς' else 'σ']
        else if c.toNat < 128 then [c.toLower]
        else mapChar lowerExpansions lowerRuns c
      image ++ lowerFrom (c :: before) rest

end Case

def lower (s : String) : String := String.ofList (Case.lowerFrom [] s.toList)

def upper (s : String) : String :=
  String.ofList <| s.toList.flatMap fun c =>
    if c.toNat < 128 then [c.toUpper] else Case.mapChar Case.upperExpansions Case.upperRuns c

end StateSpace.Text
