/-!
# Lines

A text file may end its lines with a line feed, a carriage return or both; read as text, each of
the three is a line feed. Positions in a text are told by the number of line feeds before them.
-/

namespace BuildFiles.Text

/-- The characters with every line ending written as a line feed. -/
def plainLinesList : List Char → List Char
  | '\r' :: '\n' :: cs => '\n' :: plainLinesList cs
  | '\r' :: cs => '\n' :: plainLinesList cs
  | c :: cs => c :: plainLinesList cs
  | [] => []

/-- The text with every line ending written as a line feed. -/
def plainLines (s : String) : String := String.ofList (plainLinesList s.toList)

/-- The number of line feeds. -/
def lineFeeds (cs : List Char) : Nat := cs.count '\n'

@[simp] theorem lineFeeds_append (a b : List Char) :
    lineFeeds (a ++ b) = lineFeeds a + lineFeeds b := List.count_append

/-- The characters after the first line feed. -/
def afterLine (cs : List Char) : List Char := (cs.dropWhile (· != '\n')).drop 1

theorem length_afterLine_le (cs : List Char) : (afterLine cs).length ≤ cs.length := by
  have := (List.dropWhile_suffix (l := cs) (· != '\n')).length_le
  simp only [afterLine, List.length_drop]
  omega

end BuildFiles.Text
