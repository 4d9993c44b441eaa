import BuildFiles.Datum.Key
import BuildFiles.Reader.Numeral

/-!
# Tokens of JSON

A text of JSON is a sequence of tokens with blanks between them. Numbers that are not finite are
written by their names. `tokens?` splits a text, and has nothing for a text that is not made of
tokens.
-/

namespace BuildFiles.Json

/-- A token: a mark, or a value that stands for itself. -/
inductive Token where
  | beginArray
  | endArray
  | beginObject
  | endObject
  | colon
  | comma
  | scalar (d : Datum)

/-- A blank between tokens. -/
def isBlank (c : Char) : Bool := c == ' ' || c == '\t' || c == '\n' || c == '\r'

/-- What a letter stands for after a backslash. -/
def escape? : Char → Option Char
  | '"' => some '"'
  | '\\' => some '\\'
  | '/' => some '/'
  | 'b' => some '\x08'
  | 'f' => some '\x0c'
  | 'n' => some '\n'
  | 'r' => some '\r'
  | 't' => some '\t'
  | _ => none

/-- The number of four hexadecimal digits. -/
def unit? (digits : List Char) : Option Nat :=
  if Reader.isNumeralOf 16 digits then some (Reader.digitsValue 16 digits) else none

/-- Put a character before a scanned text. -/
def prepend (c : Char) (s : Option (List Char × List Char)) : Option (List Char × List Char) :=
  s.map fun (text, rest) => (c :: text, rest)

/-- The characters of a text up to its closing quote, and what follows. -/
def body? : List Char → Option (List Char × List Char)
  | [] => none
  | '"' :: cs => some ([], cs)
  | '\\' :: 'u' :: a :: b :: c :: d :: '\\' :: 'u' :: e :: f :: g :: h :: cs => do
    let high ← unit? [a, b, c, d]
    match unit? [e, f, g, h] with
    | some low =>
      if Text.isHighHalf high && Text.isLowHalf low then
        prepend (Text.joinedHalves high low) (body? cs)
      else prepend (Text.wholeChar high) (body? ('\\' :: 'u' :: e :: f :: g :: h :: cs))
    | none => none
  | '\\' :: 'u' :: a :: b :: c :: d :: cs => do
    prepend (Text.wholeChar (← unit? [a, b, c, d])) (body? cs)
  | '\\' :: c :: cs => do prepend (← escape? c) (body? cs)
  | c :: cs => if c.toNat < 0x20 then none else prepend c (body? cs)

/-- The digits of a number, and what follows them. -/
def digits (cs : List Char) : List Char × List Char :=
  (cs.takeWhile Char.isDigit, cs.dropWhile Char.isDigit)

/-- The whole part of a number, without zeros before it, and what follows. -/
def whole? : List Char → Option (List Char × List Char)
  | '0' :: cs => some (['0'], cs)
  | cs => if (digits cs).1.isEmpty then none else some (digits cs)

/-- A fraction, if there is one. -/
def fraction : List Char → List Char × List Char
  | '.' :: cs => if (digits cs).1.isEmpty then ([], '.' :: cs) else
      ('.' :: (digits cs).1, (digits cs).2)
  | cs => ([], cs)

/-- An exponent, if there is one. -/
def exponent (cs : List Char) : List Char × List Char :=
  match cs with
  | c :: rest =>
    if c = 'e' ∨ c = 'E' then
      let (sign, ds) := match rest with
        | s :: more => if s = '-' ∨ s = '+' then ([s], more) else ([], rest)
        | [] => ([], [])
      if (digits ds).1.isEmpty then ([], cs) else (c :: sign ++ (digits ds).1, (digits ds).2)
    else ([], cs)
  | [] => ([], [])

/-- A number without its sign, and what follows. -/
def number? (negative : Bool) (cs : List Char) : Option (Datum × List Char) := do
  let (w, cs) ← whole? cs
  let (f, cs) := fraction cs
  let (e, cs) := exponent cs
  if f.isEmpty && e.isEmpty then
    let n : Int := Reader.digitsValue 10 w
    return (.int (if negative then -n else n), cs)
  else return (.float (← Reader.decimal? negative (w ++ f ++ e)), cs)

/-- The values that are written by their names. -/
def named : List (String × Datum) :=
  [("true", .bool true), ("false", .bool false), ("null", .nil), ("NaN", .float .undefined),
    ("Infinity", .float (.infinity false)), ("-Infinity", .float (.infinity true))]

/-- A value that the text starts with the name of, and what follows. -/
def named? (cs : List Char) : Option (Datum × List Char) :=
  (named.find? fun e => e.1.toList.isPrefixOf cs).map fun e => (e.2, cs.drop e.1.length)

/-- The mark that a character is. -/
def mark? : Char → Option Token
  | '[' => some .beginArray
  | ']' => some .endArray
  | '\x7b' => some .beginObject
  | '\x7d' => some .endObject
  | ':' => some .colon
  | ',' => some .comma
  | _ => none

/-- The token that starts with the character, and what follows. -/
def scan? (c : Char) (cs : List Char) : Option (Token × List Char) :=
  match mark? c with
  | some t => some (t, cs)
  | none =>
    if c = '"' then (body? cs).map fun (s, rest) => (.scalar (.str (String.ofList s)), rest)
    else
      let scalar := match named? (c :: cs) with
        | some r => some r
        | none => if c = '-' then number? true cs else number? false (c :: cs)
      scalar.map fun (d, rest) => (.scalar d, rest)

/-- Split a text into at most `fuel` tokens. -/
def tokensWithin : Nat → List Char → Option (List Token)
  | _, [] => some []
  | 0, _ => none
  | fuel + 1, c :: cs =>
    if isBlank c then tokensWithin fuel cs
    else do
      let (t, rest) ← scan? c cs
      return t :: (← tokensWithin fuel rest)

/-- The tokens of a text. A blank or a token takes at least one character. -/
def tokens? (s : String) : Option (List Token) := tokensWithin s.length s.toList

end BuildFiles.Json
