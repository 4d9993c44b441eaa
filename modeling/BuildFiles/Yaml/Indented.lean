import BuildFiles.Yaml.Cursor
import BuildFiles.Yaml.Damage

/-!
# Indented scalars

A scalar that is written in lines of its own, all indented alike, after a header. The header says
whether breaks are kept or folded into spaces, what becomes of the breaks at the end, and, if it is
not to be told from the first line, how far the lines are indented.
-/

namespace BuildFiles.Yaml

/-- What the header of an indented scalar says after its mark. -/
structure Header where
  /-- all breaks at the end stay, or none; otherwise one does -/
  keepsEnd : Option Bool := none
  /-- how far the lines are indented inside of the collection around them -/
  indent : Option Nat := none

/-- The mark of what becomes of breaks at the end. -/
def endMark? (c : Cursor) : Option Bool :=
  match c.head? with
  | some '+' => some true
  | some '-' => some false
  | _ => none

/-- A digit. -/
def digit? (c : Cursor) : Option Nat :=
  (c.head?.filter Char.isDigit).map fun x => x.toNat - '0'.toNat

/-- The header, and what follows it. -/
def header (c : Cursor) : Header × Cursor :=
  match endMark? c, digit? c with
  | some e, _ =>
    match digit? c.next with
    | some n => (⟨some e, some n⟩, c.next.next)
    | none => (⟨some e, none⟩, c.next)
  | none, some n =>
    match endMark? c.next with
    | some e => (⟨some e, some n⟩, c.next.next)
    | none => (⟨none, some n⟩, c.next)
  | none, none => ({}, c)

/-- The start of the next line, with only a comment before it. -/
def nextLine (c : Cursor) : Except Damage Cursor :=
  let c := c.skipComment
  if c.rest.isEmpty || c.atBreak then .ok c.next else .error .malformed

/-- The breaks before the first line, how far the lines before it are indented at the most, and the
first line. -/
def leading : Nat → Cursor → List Char × Nat × Cursor
  | 0, c => ([], 0, c)
  | fuel + 1, c =>
    match c.head? with
    | some ' ' =>
      let (breaks, indent, after) := leading fuel c.next
      (breaks, max indent c.next.column, after)
    | some x =>
      if isBreak x then
        let (breaks, indent, after) := leading fuel c.next
        (breakChar x :: breaks, indent, after)
      else ([], 0, c)
    | none => ([], 0, c)

/-- Go on over spaces up to the column. -/
def skipIndent (indent : Nat) (c : Cursor) : Cursor :=
  c.skip (min (indent - c.column) (c.rest.takeWhile (· == ' ')).length)

/-- The breaks before the next line, and that line after its indentation. -/
def emptyLines (indent : Nat) : Nat → Cursor → List Char × Cursor
  | 0, c => ([], c)
  | fuel + 1, c =>
    let c := skipIndent indent c
    match c.head? with
    | some x =>
      if isBreak x then
        let (breaks, after) := emptyLines indent fuel c.next
        (breakChar x :: breaks, after)
      else ([], c)
    | none => ([], c)

/-- What is read of an indented scalar: its characters, the last first, the break after them and
more of them. -/
structure Progress where
  soFar : List Char := []
  ending : List Char := []
  empty : List Char
  after : Cursor

/-- The scalar goes on here. -/
def Progress.goesOn (p : Progress) (indent : Nat) : Bool :=
  p.after.column == indent && !p.after.rest.isEmpty

/-- The line starts with a blank of its own. -/
def startsBlank (c : Cursor) : Bool := c.head?.any isSpace

/-- Read line after line, at most `fuel`. -/
def contentLines (isFolded : Bool) (indent : Nat) : Nat → Progress → Progress
  | 0, p => p
  | fuel + 1, p =>
    if !p.goesOn indent then p
    else
      let line := p.after.rest.takeWhile fun x => !isBreak x
      let stop := p.after.skipLine
      let ending := (stop.rest.take 1).map breakChar
      let (empty, after) := emptyLines indent (stop.rest.length + 1) stop.next
      let soFar := line.reverse ++ p.empty.reverse ++ p.soFar
      let q : Progress := ⟨soFar, ending, empty, after⟩
      if !q.goesOn indent then q
      else
        let joins := isFolded && ending == ['\n'] && !startsBlank p.after && !startsBlank after
        let between := if joins then if empty.isEmpty then [' '] else [] else ending
        contentLines isFolded indent fuel { q with soFar := between ++ soFar }

/-- The indented scalar that starts here, in a collection whose lines start at the column `least` or
later, and what follows it. -/
def indented (least : Nat) (c : Cursor) : Except Damage (String × Cursor) := do
  let isFolded := c.head? = some '>'
  let (header, c) := header c.next
  if header.indent = some 0 || !startsPlainGap c.rest then throw .malformed
  let c ← nextLine c
  let least := max least 1
  let fuel := c.rest.length + 1
  let (indent, empty, c) := match header.indent with
    | some n =>
      let (empty, c) := emptyLines (least + n - 1) fuel c
      (least + n - 1, empty, c)
    | none =>
      let (empty, indent, c) := leading fuel c
      (max least indent, empty, c)
  let p := contentLines isFolded indent fuel { empty := empty, after := c }
  let ending := match header.keepsEnd with
    | some false => []
    | none => p.ending
    | some true => p.ending ++ p.empty
  return (String.ofList (p.soFar.reverse ++ ending), p.after)

end BuildFiles.Yaml
