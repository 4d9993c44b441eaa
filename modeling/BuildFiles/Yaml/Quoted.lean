import BuildFiles.Reader.Numeral
import BuildFiles.Yaml.Cursor
import BuildFiles.Yaml.Damage

/-!
# Scalars in quotes

A scalar in quotes goes on over lines up to its closing quote. A break between two of its lines is a
space, and each more is a line feed; blanks beside it are no part of the scalar. In double quotes a
backslash escapes a character or a break; in single quotes only the quote can be escaped, by writing
it twice.
-/

namespace BuildFiles.Yaml

/-- What a letter stands for after a backslash. -/
def escapes : List (Char × Char) :=
  [('0', '\x00'), ('a', '\x07'), ('b', '\x08'), ('t', '\t'), ('\t', '\t'), ('n', '\n'),
    ('v', '\x0b'), ('f', '\x0c'), ('r', '\r'), ('e', '\x1b'), (' ', ' '), ('"', '"'), ('\\', '\\'),
    ('/', '/'), ('N', '\x85'), ('_', '\xa0'), ('L', '\u2028'), ('P', '\u2029')]

/-- How many digits of a code point follow a letter. -/
def codeSizes : List (Char × Nat) := [('x', 2), ('u', 4), ('U', 8)]

/-- The code point that is written after a backslash, and how many characters write it. -/
def code? : List Char → Option (Nat × Nat)
  | [] => none
  | c :: cs => do
    let size ← codeSizes.lookup c
    let digits := cs.take size
    guard (digits.length = size && Reader.isNumeralOf 16 digits)
    return (Reader.digitsValue 16 digits, size + 1)

/-- The second half of a code point, if an escape for one is next, and how many characters write
it. -/
def lowHalf? : List Char → Option (Nat × Nat)
  | '\\' :: cs => do
    let (n, size) ← code? cs
    guard (Text.isLowHalf n)
    return (n, size + 1)
  | _ => none

/-- The character of a code point before the given text, and how much of that belongs to it. A half
without the other is replaced. -/
def character (n : Nat) (after : List Char) : Except Damage (Char × Nat) :=
  if 0x80000000 ≤ n then .error (.scalar .tooLarge)
  else if 0x110000 ≤ n then .error (.scalar .noValue)
  else
    match lowHalf? after with
    | some (low, size) =>
      if Text.isHighHalf n then .ok (Text.joinedHalves n low, size) else .ok (Text.wholeChar n, 0)
    | none => .ok (Text.wholeChar n, 0)

/-- The character after a backslash, and how many characters write it. -/
def escaped (cs : List Char) : Except Damage (Char × Nat) :=
  match cs.head?.bind (fun c => escapes.lookup c), code? cs with
  | some x, _ => .ok (x, 1)
  | none, some (n, size) => do
    let (x, more) ← character n (cs.drop size)
    return (x, size + more)
  | none, none => .error .malformed

/-- The breaks after one, where no document ends. -/
def quotedBreaks (c : Cursor) : Except Damage (List Char × Cursor) :=
  match breaks? isSpace (c.rest.length + 1) c with
  | (some more, c) => .ok (more, c)
  | (none, _) => .error .malformed

/-- The rest of a scalar in quotes after the characters `soFar`, the last first, and what follows
it. -/
def quotedFrom (quote : Char) : Nat → List Char → Cursor → Except Damage (String × Cursor)
  | 0, _, _ => .error .malformed
  | fuel + 1, soFar, c =>
    match c.rest with
    | [] => .error .malformed
    | x :: rest =>
      if x = quote then
        if quote = '\'' && rest.head? = some '\'' then
          quotedFrom quote fuel ('\'' :: soFar) (c.skip 2)
        else .ok (String.ofList soFar.reverse, c.next)
      else if x = '\\' && quote = '"' then
        if rest.head?.any isBreak then do
          let (more, c) ← quotedBreaks (c.skip 2)
          quotedFrom quote fuel (more.reverse ++ soFar) c
        else do
          let (e, size) ← escaped rest
          quotedFrom quote fuel (e :: soFar) (c.skip (1 + size))
      else if isGap x then
        let after := c.skipWhile isSpace
        match after.head? with
        | none => .error .malformed
        | some y =>
          if isBreak y then do
            let (more, c) ← quotedBreaks after.next
            quotedFrom quote fuel ((folded y more).reverse ++ soFar) c
          else quotedFrom quote fuel ((c.rest.takeWhile isSpace).reverse ++ soFar) after
      else quotedFrom quote fuel (x :: soFar) c.next

/-- The scalar in quotes that starts here, and what follows it. -/
def quoted (c : Cursor) : Except Damage (String × Cursor) :=
  match c.head? with
  | some quote => quotedFrom quote (c.rest.length + 1) [] c.next
  | none => .error .malformed

end BuildFiles.Yaml
