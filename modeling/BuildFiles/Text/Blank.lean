import BuildFiles.Text.Ranges

/-!
# Blank characters

The blank characters of Unicode: the white space and separator characters, with the four
information separators. Text is trimmed of them, and lines and file names are not.
-/

namespace BuildFiles.Text

/-- The code points of the blank characters. -/
def blankRanges : List (Nat × Nat) :=
  [(0x9, 0xd), (0x1c, 0x20), (0x85, 0x85), (0xa0, 0xa0), (0x1680, 0x1680), (0x2000, 0x200a),
   (0x2028, 0x2029), (0x202f, 0x202f), (0x205f, 0x205f), (0x3000, 0x3000)]

/-- A blank character. -/
def isBlank (c : Char) : Bool := within blankRanges c

example : (blankRanges.map fun r => r.2 - r.1 + 1).sum = 29 := rfl

/-- The characters without the blanks before and after them. -/
def trimList (cs : List Char) : List Char :=
  ((cs.dropWhile isBlank).reverse.dropWhile isBlank).reverse

/-- The text without the blanks before and after it. -/
def trim (s : String) : String := String.ofList (trimList s.toList)

end BuildFiles.Text
