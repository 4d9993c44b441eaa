import BuildFiles.Datum.Basic
import BuildFiles.Yaml.Damage
import BuildFiles.Yaml.Kind

/-!
# Scalars of settings files

What the text of a scalar stands for, given its kind. A text that is of a kind only because a tag
says so may have another form than a number or a date without quotes; numbers are then read
leniently.
-/

namespace BuildFiles.Yaml

/-! ## Integers -/

/-- An integer of a base. -/
def lenientInteger (base : Nat) (cs : List Char) : Except Damage Int :=
  match Reader.lenientInteger? base cs with
  | some n => .ok n
  | none => .error (.scalar .noValue)

/-- An integer without its sign. -/
def magnitude (cs : List Char) : Except Damage Int :=
  match cs with
  | [] => .error (.scalar .empty)
  | '0' :: 'b' :: ds => lenientInteger 2 ds
  | '0' :: 'x' :: ds => lenientInteger 16 ds
  | '0' :: _ => lenientInteger 8 cs
  | _ =>
    if cs.contains ':' then do
      let parts ← (cs.splitOn ':').mapM (lenientInteger 10)
      return parts.foldl (fun sum n => 60 * sum + n) 0
    else lenientInteger 10 cs

/-- Characters without underscores. -/
def plainDigits (s : String) : List Char := s.toList.filter (· != '_')

/-- The integer that a text is. -/
def integerOf (s : String) : Except Damage Datum := do
  let cs := plainDigits s
  if cs.isEmpty then throw (.scalar .empty)
  let (negative, body) := Reader.splitSign cs
  let n ← magnitude body
  return .int (if negative then -n else n)

/-! ## Floating point numbers -/

/-- A floating point number with blanks about it. -/
def lenientFloat? (cs : List Char) : Option Binary64 := do
  let cs := (cs.map Reader.plainDigit).dropWhile Reader.isNumeralBlank
  let cs := (cs.reverse.dropWhile Reader.isNumeralBlank).reverse
  let (negative, body) := Reader.splitSign cs
  let word := String.ofList body
  if word = "inf" || word = "infinity" then return .infinity negative
  if word = "nan" then return .undefined
  let whole := body.takeWhile Char.isDigit
  let rest := body.dropWhile Char.isDigit
  let (fraction, rest) := match rest with
    | '.' :: more => (more.takeWhile Char.isDigit, more.dropWhile Char.isDigit)
    | _ => ([], rest)
  guard (!(whole ++ fraction).isEmpty)
  let power ← match rest with
    | [] => some 0
    | 'e' :: more => Reader.exponent? more
    | _ => none
  return .ofDecimal negative (Reader.digitsValue 10 (whole ++ fraction)) (power - fraction.length)

/-- How many parts a numeral of base sixty has at the most, so that the weights of all of them are
floating point numbers. -/
def maxParts : Nat := 174

/-- The number that parts of base sixty are, the last first, added up from the last on. -/
def sexagesimal (parts : List Binary64) : Binary64 :=
  (parts.foldl (fun (sum, weight) p => (sum.plus (p.timesNat weight), 60 * weight))
    (.ofDecimal false 0 0, 1)).1

/-- The floating point number that a text is. -/
def floatOf (s : String) : Except Damage Datum := do
  let cs := (plainDigits s).map Char.toLower
  if cs.isEmpty then throw (.scalar .empty)
  let (negative, body) := Reader.splitSign cs
  let x ←
    if body = ".inf".toList then pure (Binary64.infinity false)
    else if body = ".nan".toList then pure Binary64.undefined
    else if body.contains ':' then
      match (body.splitOn ':').mapM lenientFloat? with
      | none => throw (.scalar .noValue)
      | some parts =>
        if maxParts < parts.length then throw (.scalar .tooLarge)
        else pure (sexagesimal parts.reverse)
    else match lenientFloat? body with
      | some x => pure x
      | none => throw (.scalar .noValue)
  return .float (if negative then x.negated else x)

/-! ## Other scalars -/

/-- The words for the two truth values. -/
def truths : List (String × Bool) :=
  [("yes", true), ("no", false), ("true", true), ("false", false), ("on", true), ("off", false)]

/-- The truth value that a text is. -/
def truthOf (s : String) : Except Damage Datum :=
  match truths.lookup s.toLower with
  | some b => .ok (.bool b)
  | none => .error (.scalar .unknownWord)

/-- The year has a day more than others. -/
def isLeap (year : Nat) : Bool := year % 4 = 0 && (year % 100 ≠ 0 || year % 400 = 0)

/-- How many days a month has. -/
def daysIn (year month : Nat) : Nat :=
  if month = 2 then if isLeap year then 29 else 28
  else if [4, 6, 9, 11].contains month then 30 else 31

/-- There is such a date. -/
def Stamp.isPossible (s : Stamp) : Bool :=
  1 ≤ s.year && 1 ≤ s.month && s.month ≤ 12 && 1 ≤ s.day && s.day ≤ daysIn s.year s.month
    && (s.time.all fun (hour, minute, second) => hour < 24 && minute < 60 && second < 60)
    && s.zone < 24 * 60

/-- The date that a text is, of which a line feed may be the end. -/
def dateOf (s : String) : Except Damage Datum :=
  match stamp? (Reader.dropSuffix '\n' s.toList) with
  | none => .error (.scalar .notDate)
  | some stamp =>
    if stamp.isPossible then .ok (.tagged (.plain "date") [] (.str s))
    else .error (.scalar .noValue)

/-- The value of a character that stands for six bits. -/
def sixBits? (c : Char) : Option Nat :=
  if c.isUpper then some (c.toNat - 'A'.toNat)
  else if c.isLower then some (c.toNat - 'a'.toNat + 26)
  else if c.isDigit then some (c.toNat - '0'.toNat + 52)
  else if c = '+' then some 62
  else if c = '/' then some 63
  else none

/-- The bytes of characters that stand for six bits each, after `left` bits of which the number is
`bits`, and as many equality signs as there are `pads`. Other characters say nothing. -/
def unpacked? : List Char → Nat → Nat → Nat → Option (List Nat)
  | [], left, _, _ => if left = 0 then some [] else none
  | c :: cs, left, bits, pads =>
    match sixBits? c with
    | none =>
      if c = '=' && (left = 4 || left = 2) then
        if left = 2 || pads = 1 then some [] else unpacked? cs left bits (pads + 1)
      else unpacked? cs left bits pads
    | some n =>
      let bits := 64 * bits + n
      if left = 0 then unpacked? cs 6 bits 0
      else
        let rest := Nat.pow 2 (left - 2)
        (unpacked? cs (left - 2) (bits % rest) 0).map fun bytes => bits / rest :: bytes

/-- The bytes that a text stands for. -/
def bytesOf (s : String) : Except Damage Datum :=
  if s.toList.any fun c => 128 ≤ c.toNat then .error .malformed
  else match unpacked? s.toList 0 0 0 with
    | some ns => .ok (.vector (ns.map fun n => .int (Int.ofNat n)))
    | none => .error .malformed

/-- What a text stands for as a scalar of a kind. -/
def Kind.scalar (k : Kind) (s : String) : Except Damage Datum :=
  match k with
  | .nothing => .ok .nil
  | .truth => truthOf s
  | .integer => integerOf s
  | .float => floatOf s
  | .bytes => bytesOf s
  | .date => dateOf s
  | .text => .ok (.str s)
  | _ => .error .malformed

end BuildFiles.Yaml
