/-!
Line ends. A line may end with a return, a line feed, or a return and a line feed; a reader of lines
is handed a line feed for each.
-/
namespace StateSpace.Text

/-- The characters with every line end as a line feed. -/
def feedEnds : List Char → List Char
  | [] => []
  | '\r' :: '\n' :: rest => '\n' :: feedEnds rest
  | '\r' :: rest => '\n' :: feedEnds rest
  | c :: rest => c :: feedEnds rest

/-- A text as it is read line by line. -/
def readLines (s : String) : String := String.ofList (feedEnds s.toList)

example : feedEnds ['a', '\r', '\r', '\n', 'b', '\n', '\r'] =
    ['a', '\n', '\n', 'b', '\n', '\n'] := by decide

end StateSpace.Text
