import BuildFiles.Text.Basic

/-!
# Positions in settings files

A cursor is what is left of a text, with the index, the line and the column there. Lines are divided
by five characters, of which two stand for themselves in scalars and the others for a line feed.
-/

namespace BuildFiles.Yaml

/-! ## Characters -/

/-- A break between lines. -/
def isBreak (c : Char) : Bool :=
  c == '\n' || c == '\r' || c == '\x85' || c == '\u2028' || c == '\u2029'

/-- A blank in a line. -/
def isSpace (c : Char) : Bool := c == ' ' || c == '\t'

/-- A blank or a break. -/
def isGap (c : Char) : Bool := isSpace c || isBreak c

/-- The text starts with a gap or is at its end. -/
def startsGap (cs : List Char) : Bool := cs.head?.all isGap

/-- The text starts with a space or a break, or is at its end. -/
def startsPlainGap (cs : List Char) : Bool := cs.head?.all fun c => c == ' ' || isBreak c

/-- Characters that a text may hold. -/
def isPrintable (c : Char) : Bool :=
  let n := c.toNat
  n == 9 || n == 10 || n == 13 || (0x20 ≤ n && n ≤ 0x7e) || n == 0x85
    || (0xa0 ≤ n && n ≠ 0xfffe && n ≠ 0xffff)

/-- The break that a character is in a scalar. -/
def breakChar (c : Char) : Char := if c == '\u2028' || c == '\u2029' then c else '\n'

/-! ## Cursors -/

/-- A position in a text, with what is left of it. -/
structure Cursor where
  rest : List Char
  index : Nat := 0
  line : Nat := 0
  column : Nat := 0

/-- The mark that a text may start with, which takes no room in a line. -/
def orderMark : Char := '\ufeff'

namespace Cursor

/-- The next character. -/
def head? (c : Cursor) : Option Char := c.rest.head?

/-- Go on by one character. -/
def next (c : Cursor) : Cursor :=
  match c.rest with
  | [] => c
  | x :: rest =>
    if isBreak x then ⟨rest, c.index + 1, c.line + 1, 0⟩
    else ⟨rest, c.index + 1, c.line, if x = orderMark then c.column else c.column + 1⟩

/-- Go on by some characters. -/
def skip : Nat → Cursor → Cursor
  | 0, c => c
  | n + 1, c => skip n c.next

/-- Go on over the characters of a kind. -/
def skipWhile (p : Char → Bool) (c : Cursor) : Cursor := c.skip (c.rest.takeWhile p).length

/-- Go on over spaces. -/
def skipSpaces (c : Cursor) : Cursor := c.skipWhile (· == ' ')

/-- Go on to the end of the line. -/
def skipLine (c : Cursor) : Cursor := c.skipWhile fun x => !isBreak x

/-- Go on over spaces and a comment after them. -/
def skipComment (c : Cursor) : Cursor :=
  let c := c.skipSpaces
  if c.head? = some '#' then c.skipLine else c

/-- A break is next. -/
def atBreak (c : Cursor) : Bool := c.head?.any isBreak

/-- The mark is next at the start of a line, with a gap after it. -/
def atMark (c : Cursor) (mark : String) : Bool :=
  c.column == 0 && mark.toList.isPrefixOf c.rest && startsGap (c.rest.drop mark.length)

/-- What a document starts with. -/
def startMark : String := "---"

/-- What a document ends with. -/
def endMark : String := "..."

/-- A mark between documents is next. -/
def atBorder (c : Cursor) : Bool := c.atMark startMark || c.atMark endMark

end Cursor

/-! ## Breaks -/

/-- The breaks from here on, among blanks of a kind; none if a mark between documents is next. -/
def breaks? (isBlank : Char → Bool) : Nat → Cursor → Option (List Char) × Cursor
  | 0, c => (some [], c)
  | fuel + 1, c =>
    if c.atBorder then (none, c) else
      match c.head? with
      | some x =>
        if isBlank x then breaks? isBlank fuel c.next
        else if isBreak x then
          let (more, c) := breaks? isBlank fuel c.next
          (more.map (breakChar x :: ·), c)
        else (some [], c)
      | none => (some [], c)

/-- What a break and more of them after it are between two lines of a scalar. -/
def folded (first : Char) (more : List Char) : List Char :=
  if breakChar first ≠ '\n' then breakChar first :: more
  else if more.isEmpty then [' '] else more

end BuildFiles.Yaml
