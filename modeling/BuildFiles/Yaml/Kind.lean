import BuildFiles.Reader.Numeral
import BuildFiles.Text.Basic

/-!
# Kinds of nodes

Of what kind a node of a settings file is: by its tag, if it has one, and for a scalar without
quotes by the form of its text.
-/

namespace BuildFiles.Yaml

/-- The kind of a node. -/
inductive Kind where
  | nothing
  | truth
  | integer
  | float
  | bytes
  | date
  | orderedMap
  | pairs
  | set
  | text
  | sequence
  | mapping
  /-- the key of mappings whose entries are taken in -/
  | merge
  /-- the key of the value that stands for a mapping -/
  | stand
  | unknown
  deriving DecidableEq

/-! ## Words -/

/-- The words for nothing. -/
def nothingWords : List String := ["", "~", "null", "Null", "NULL"]

/-- The words for truth values. -/
def truthWords : List String :=
  ["yes", "Yes", "YES", "no", "No", "NO", "true", "True", "TRUE", "false", "False", "FALSE",
    "on", "On", "ON", "off", "Off", "OFF"]

/-! ## Numbers -/

/-- Digits of a base or underscores. -/
def isDigits (base : Nat) (cs : List Char) : Bool :=
  cs.all fun c => Reader.isDigitOf base c || c == '_'

/-- Digits and underscores, with a digit first. -/
def isNumeral (cs : List Char) : Bool := cs.head?.any Char.isDigit && isDigits 10 cs

/-- A number below sixty. -/
def isSixtieth (cs : List Char) : Bool :=
  Reader.isNumeralOf 10 cs && cs.length ≤ 2 && Reader.digitsValue 10 cs < 60

/-- A numeral of base sixty, with colons between its parts. -/
def isSexagesimal (cs : List Char) : Bool :=
  match cs.splitOn ':' with
  | first :: second :: more => isNumeral first && (second :: more).all isSixtieth
  | _ => false

/-- An integer without its sign. -/
def isInteger (cs : List Char) : Bool :=
  match cs with
  | ['0'] => true
  | '0' :: 'b' :: ds => !ds.isEmpty && isDigits 2 ds
  | '0' :: 'x' :: ds => !ds.isEmpty && isDigits 16 ds
  | '0' :: ds => isDigits 8 ds
  | _ => isNumeral cs || isSexagesimal cs

/-- What follows the digits of a number is nothing or an exponent, which has a sign. -/
def isExponent (cs : List Char) : Bool :=
  match cs with
  | [] => true
  | e :: sign :: ds =>
    (e = 'e' || e = 'E') && (sign = '+' || sign = '-') && Reader.isNumeralOf 10 ds
  | _ => false

/-- The words for numbers that are not finite. -/
def infinityWords : List String := [".inf", ".Inf", ".INF"]

@[inherit_doc infinityWords]
def undefinedWords : List String := [".nan", ".NaN", ".NAN"]

/-- A floating point number without its sign, which it may have if it is `signed`. -/
def isFloat (signed : Bool) (cs : List Char) : Bool :=
  match Text.cut? '.' cs with
  | none => false
  | some (whole, rest) =>
    let isPart (c : Char) : Bool := c.isDigit || c == '_'
    let after := rest.dropWhile isPart
    isNumeral whole && isExponent after
      || isSexagesimal whole && after.isEmpty
      || whole.isEmpty && !signed && isNumeral (rest.takeWhile isPart) && isExponent after
      || infinityWords.contains (String.ofList cs)
      || !signed && undefinedWords.contains (String.ofList cs)

/-! ## Dates -/

/-- A date, with a time of day and its distance from universal time in minutes, if it has them. -/
structure Stamp where
  year : Nat
  month : Nat
  day : Nat
  time : Option (Nat × Nat × Nat) := none
  zone : Nat := 0

/-- A number of some digits, and what follows. -/
def digits? (least most : Nat) (cs : List Char) : Option (Nat × List Char) := do
  let ds := (cs.take most).takeWhile Char.isDigit
  guard (least ≤ ds.length)
  return (Reader.digitsValue 10 ds, cs.drop ds.length)

/-- Drop a mark. -/
def afterMark? (mark : Char) : List Char → Option (List Char)
  | c :: cs => if c = mark then some cs else none
  | [] => none

/-- The distance from universal time, which is what is left of a text. -/
def zone? (cs : List Char) : Option Nat :=
  match cs with
  | [] => some 0
  | ['Z'] => some 0
  | sign :: cs => do
    guard (sign = '+' || sign = '-')
    let (hours, cs) ← digits? 1 2 cs
    if cs.isEmpty then return 60 * hours
    let (minutes, cs) ← digits? 2 2 (← afterMark? ':' cs)
    guard cs.isEmpty
    return 60 * hours + minutes

/-- A blank beside the time of day. -/
def isTimeBlank (c : Char) : Bool := c == ' ' || c == '\t'

/-- The time of day and the distance from universal time, which are what is left of a text. -/
def time? (cs : List Char) : Option ((Nat × Nat × Nat) × Nat) := do
  let (hour, cs) ← digits? 1 2 cs
  let (minute, cs) ← digits? 2 2 (← afterMark? ':' cs)
  let (second, cs) ← digits? 2 2 (← afterMark? ':' cs)
  let cs := match cs with
    | '.' :: rest => rest.dropWhile Char.isDigit
    | _ => cs
  let zone := cs.dropWhile isTimeBlank
  guard (!zone.isEmpty || cs.isEmpty)
  return ((hour, minute, second), ← zone? zone)

/-- The date that a text is. -/
def stamp? (cs : List Char) : Option Stamp := do
  let (year, cs) ← digits? 4 4 cs
  let (month, cs) ← digits? 1 2 (← afterMark? '-' cs)
  let (day, cs) ← digits? 1 2 (← afterMark? '-' cs)
  match cs with
  | [] => return { year, month, day }
  | c :: rest =>
    guard (c = 'T' || c = 't' || isTimeBlank c)
    let (time, zone) ← time? (if isTimeBlank c then rest.dropWhile isTimeBlank else rest)
    return { year, month, day, time := some time, zone }

/-- The text is a date. Without a time of day, its numbers have two digits. -/
def isDate (cs : List Char) : Bool := (stamp? cs).any fun s => s.time.isSome || cs.length = 10

/-! ## Kinds -/

/-- Marks of nodes, which are of no kind when they are scalars. -/
def nodeMarks : List String := ["!", "&", "*"]

/-- The characters of a text that say of what kind it is: a line feed at its end does not. -/
def telling (s : String) : List Char :=
  if s = "\n" then ['\n'] else Reader.dropSuffix '\n' s.toList

/-- The kind of a scalar without quotes or a tag. -/
def Kind.ofPlain (s : String) : Kind :=
  let cs := telling s
  let word := String.ofList cs
  let (_, body) := Reader.splitSign cs
  if truthWords.contains word then .truth
  else if isFloat (body.length < cs.length) body then .float
  else if isInteger body then .integer
  else if word = "<<" then .merge
  else if nothingWords.contains word then .nothing
  else if isDate cs then .date
  else if word = "=" then .stand
  else if nodeMarks.contains word then .unknown
  else .text

/-- What the tags of the language start with. -/
def tagStart : String := "tag:yaml.org,2002:"

/-- The kinds by their names. -/
def namedKinds : List (String × Kind) :=
  [("null", .nothing), ("bool", .truth), ("int", .integer), ("float", .float), ("binary", .bytes),
    ("timestamp", .date), ("omap", .orderedMap), ("pairs", .pairs), ("set", .set), ("str", .text),
    ("seq", .sequence), ("map", .mapping), ("merge", .merge), ("value", .stand)]

/-- The kind that a tag says. -/
def Kind.ofTag (tag : String) : Kind :=
  ((namedKinds.find? fun e => tag == tagStart ++ e.1).map Prod.snd).getD .unknown

/-- The kind is one of collections, which cannot be keys. -/
def Kind.isCollection (k : Kind) : Bool :=
  [.sequence, .mapping, .set, .orderedMap, .pairs].contains k

end BuildFiles.Yaml
