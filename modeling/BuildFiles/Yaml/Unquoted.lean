import BuildFiles.Yaml.Cursor

/-!
# Scalars without quotes

A scalar without quotes goes on over lines up to a mark that ends it, or to a line that starts to
the left of its place. A break between two of its lines is a space, and each more is a line feed.
-/

namespace BuildFiles.Yaml

/-- The marks of collections in brackets. -/
def flowMarks : List Char := [',', '[', ']', '\x7b', '\x7d']

/-- The marks that no scalar without quotes starts with, apart from three that a character may
follow. -/
def startMarks : List Char := "-?:,[]\x7b\x7d#&*!|>'\"%@\x60".toList

/-- A scalar without quotes may start here. -/
def startsUnquoted (inFlow : Bool) (cs : List Char) : Bool :=
  match cs with
  | [] => false
  | c :: rest =>
    !(isGap c || startMarks.contains c)
      || !startsGap rest && (c == '-' || !inFlow && (c == '?' || c == ':'))

/-- How many characters go on without a gap or the end of the scalar. -/
def runLength (inFlow : Bool) : List Char → Nat
  | [] => 0
  | c :: cs =>
    if isGap c
        || c == ':' && (startsGap cs || inFlow && cs.head?.any flowMarks.contains)
        || inFlow && (c == '?' || flowMarks.contains c) then 0
    else 1 + runLength inFlow cs

/-- A scalar without quotes. -/
structure Unquoted where
  text : String
  /-- what follows is in a later line -/
  endsLine : Bool
  after : Cursor

/-- What stands between two runs of a scalar, nothing if it ends; whether a break is in it, and what
follows. -/
def gap (c : Cursor) : List Char × Bool × Cursor :=
  let after := c.skipSpaces
  match after.head? with
  | some x =>
    if isBreak x then
      match breaks? (· == ' ') (after.rest.length + 1) after.next with
      | (none, c) => ([], true, c)
      | (some more, c) => (folded x more, true, c)
    else (c.rest.takeWhile (· == ' '), false, after)
  | none => (c.rest.takeWhile (· == ' '), false, after)

/-- The rest of a scalar of which lines start at the column `least` or later, after the characters
`soFar`, the last first, and the gap after them, which has a break in it if `endsLine`. -/
def unquotedFrom (inFlow : Bool) (least : Nat) :
    Nat → List Char → List Char → Bool → Cursor → Unquoted
  | 0, soFar, _, endsLine, c => ⟨String.ofList soFar.reverse, endsLine, c⟩
  | fuel + 1, soFar, before, endsLine, c =>
    let size := if c.head? = some '#' then 0 else runLength inFlow c.rest
    if size = 0 then ⟨String.ofList soFar.reverse, endsLine, c⟩
    else
      let soFar := (c.rest.take size).reverse ++ before.reverse ++ soFar
      let (between, endsLine, after) := gap (c.skip size)
      if between.isEmpty || after.head? = some '#' || !inFlow && after.column < least then
        ⟨String.ofList soFar.reverse, endsLine, after⟩
      else unquotedFrom inFlow least fuel soFar between endsLine after

/-- The scalar without quotes that starts here. -/
def unquoted (inFlow : Bool) (least : Nat) (c : Cursor) : Unquoted :=
  unquotedFrom inFlow least (c.rest.length + 1) [] [] false c

end BuildFiles.Yaml
