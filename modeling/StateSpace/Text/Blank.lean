import StateSpace.Text.Range

/-!
White space in the sense of the Unicode bidirectional and separator classes, and its removal from
both ends of a text.
-/
namespace StateSpace.Text

def blankRanges : CodeRanges :=
  [ (0x9, 0xd), (0x1c, 0x20), (0x85, 0x85), (0xa0, 0xa0), (0x1680, 0x1680), (0x2000, 0x200a),
    (0x2028, 0x2029), (0x202f, 0x202f), (0x205f, 0x205f), (0x3000, 0x3000) ]

def isBlank (c : Char) : Bool := blankRanges.contains c.toNat

/-- White space that may stand around a number: any but the four separators of information. -/
def isPadding (c : Char) : Bool := isBlank c && !(0x1c ≤ c.toNat && c.toNat ≤ 0x1f)

/-- The text without such characters at either end. -/
def trimBy (drops : Char → Bool) (s : String) : String :=
  let front := s.toList.dropWhile drops
  String.ofList (front.reverse.dropWhile drops).reverse

def strip (s : String) : String := trimBy isBlank s

example : [' ', '\t', '\n', '\r'].all isBlank = true := by decide

example : isBlank '\x1f' = true ∧ isPadding '\x1f' = false ∧ isPadding '\u3000' = true := by decide

example : isBlank '\u200b' = false ∧ isBlank '\u3000' = true := by decide

end StateSpace.Text
