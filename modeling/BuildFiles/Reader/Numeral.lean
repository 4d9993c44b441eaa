import BuildFiles.Datum.Basic
import BuildFiles.Text.Digit
import BuildFiles.Text.Halves
import BuildFiles.Reader.Fault

/-!
# Numerals

The notations of numbers. An integer is decimal, octal after a `0`, hexadecimal after `0x`, or of
any base up to 36 after that base and an `r`; all but the last may end in `N`. A decimal with a
fraction, an exponent or a final `M`, or one that starts with a zero and is not octal, is a floating
point number. Two integers about a slash are a ratio. Where the base is no power of two, the digits
of an integer are no more than `Text.longestNumeral`.
-/

namespace BuildFiles.Reader

/-- The value of a digit of the bases up to 36. -/
def digitValue? (c : Char) : Option Nat :=
  if c.isDigit then some (c.toNat - '0'.toNat)
  else if 'a' ≤ c ∧ c ≤ 'z' then some (c.toNat - 'a'.toNat + 10)
  else if 'A' ≤ c ∧ c ≤ 'Z' then some (c.toNat - 'A'.toNat + 10)
  else none

/-- The character is a digit of the base. -/
def isDigitOf (base : Nat) (c : Char) : Bool :=
  match digitValue? c with
  | some d => d < base
  | none => false

/-- The value of digits of the base, the most significant first. -/
def digitsValue (base : Nat) (cs : List Char) : Nat :=
  cs.foldl (fun acc c => acc * base + (digitValue? c).getD 0) 0

/-- A nonempty run of digits of the base. -/
def isNumeralOf (base : Nat) (cs : List Char) : Bool := !cs.isEmpty && cs.all (isDigitOf base)

/-- The bases whose numerals may have any number of digits. -/
def binaryBases : List Nat := [2, 4, 8, 16, 32]

/-- The digits are more than a numeral of the base may have. -/
def isTooLong (base : Nat) (ds : List Char) : Bool :=
  !binaryBases.contains base && decide (Text.longestNumeral < ds.length)

/-! ## Lenient integers

Code points and the digits after a base are read leniently: blanks about the numeral, a sign, the
mark of the base 2, 8 or 16, single underscores between digits and decimal digits of any script are
all accepted. -/

/-- A decimal digit of any script as a digit, a blank beyond the first 128 characters as a space. -/
def plainDigit (c : Char) : Char :=
  if c.toNat < 128 then c
  else if Text.isBlank c then ' '
  else match Text.decimalValue? c with
    | some d => Char.ofNat ('0'.toNat + d)
    | none => '?'

/-- A blank that may stand about a numeral. -/
def isNumeralBlank (c : Char) : Bool := c == ' ' || (0x9 ≤ c.toNat && c.toNat ≤ 0xd)

/-- The numeral without a sign: whether it is negative, and the rest. -/
def splitSign : List Char → Bool × List Char
  | '-' :: cs => (true, cs)
  | '+' :: cs => (false, cs)
  | cs => (false, cs)

/-- The letter that marks a base after a zero. -/
def baseMark? (base : Nat) : Option Char :=
  if base = 2 then some 'b' else if base = 8 then some 'o' else if base = 16 then some 'x' else none

/-- The digits without the mark of their base, and without one underscore after the mark. -/
def dropBaseMark (base : Nat) : List Char → List Char
  | '0' :: c :: cs =>
    if some c.toLower = baseMark? base then
      match cs with
      | '_' :: ds => ds
      | ds => ds
    else '0' :: c :: cs
  | cs => cs

/-- Digits of the base with single underscores between them, as digits. -/
def separated? (base : Nat) : List Char → Option (List Char)
  | [] => none
  | [c] => if isDigitOf base c then some [c] else none
  | c :: '_' :: cs => if isDigitOf base c then (separated? base cs).map (c :: ·) else none
  | c :: cs => if isDigitOf base c then (separated? base cs).map (c :: ·) else none

/-- Read an integer of a base between 2 and 36 leniently. -/
def lenientInteger? (base : Nat) (cs : List Char) : Option Int := do
  guard (2 ≤ base ∧ base ≤ 36)
  let cs := (cs.map plainDigit).dropWhile isNumeralBlank
  let cs := (cs.reverse.dropWhile isNumeralBlank).reverse
  let (negative, cs) := splitSign cs
  let ds ← separated? base (dropBaseMark base cs)
  guard (!isTooLong base ds)
  let n : Int := digitsValue base ds
  return if negative then -n else n

/-- The first number that is beyond 32 bits with a sign. -/
def wordEnd : Int := 0x80000000

/-- The character of a code point. -/
def characterOf (n : Int) : Except ReadFault Char :=
  if n < -wordEnd ∨ wordEnd ≤ n then .error .hugeCodePoint
  else if n < 0 then .error .badCodePoint
  else if Text.isHalf n.toNat then .error .halfCharacter
  else if n.toNat.isValidChar then .ok (Char.ofNat n.toNat) else .error .badCodePoint

/-- The character whose code point is written with the digits. -/
def characterIn (base : Nat) (cs : List Char) : Except ReadFault Char :=
  match lenientInteger? base cs with
  | some n => characterOf n
  | none => .error .badDigits

/-! ## Numbers -/

/-- The digits without the `N` that an integer may end in. -/
def dropSuffix (mark : Char) (cs : List Char) : List Char :=
  if cs.getLast? = some mark then cs.dropLast else cs

/-- The value of decimal digits. -/
def decimalInteger (ds : List Char) : Except ReadFault Int :=
  if isTooLong 10 ds then .error .badDigits else .ok (digitsValue 10 ds)

/-- The value of an integer without its sign, if the text is one. -/
def integer? (cs : List Char) : Option (Except ReadFault Int) :=
  let plain := dropSuffix 'N' cs
  match cs with
  | '0' :: rest =>
    let digits := dropSuffix 'N' rest
    let afterMark := dropSuffix 'N' (rest.drop 1)
    if digits.isEmpty then some (.ok 0)
    else if (rest.head? = some 'x' ∨ rest.head? = some 'X') ∧ isNumeralOf 16 afterMark then
      some (.ok (digitsValue 16 afterMark))
    else if isNumeralOf 8 digits then some (.ok (digitsValue 8 digits))
    else none
  | _ =>
    if isNumeralOf 10 plain then some (decimalInteger plain)
    else
      let base := cs.takeWhile Char.isDigit
      let rest := cs.dropWhile Char.isDigit
      let digits := rest.drop 1
      if (base.length = 1 ∨ base.length = 2) ∧ (rest.head? = some 'r' ∨ rest.head? = some 'R')
          ∧ isNumeralOf 36 digits then
        match lenientInteger? (digitsValue 10 base) digits with
        | some n => some (.ok n)
        | none => some (.error .badDigits)
      else none

/-- The exponent after its letter: a sign and digits. -/
def exponent? (cs : List Char) : Option Int :=
  let (negative, ds) := splitSign cs
  if isNumeralOf 10 ds then
    some (if negative then -(digitsValue 10 ds : Int) else digitsValue 10 ds)
  else none

/-- A decimal without its sign as a floating point number of the given sign, if the text is one. -/
def decimal? (negative : Bool) (cs : List Char) : Option Binary64 := do
  let cs := dropSuffix 'M' cs
  let whole := cs.takeWhile Char.isDigit
  guard (!whole.isEmpty)
  let rest := cs.dropWhile Char.isDigit
  let (fraction, rest) := match rest with
    | '.' :: more => (more.takeWhile Char.isDigit, more.dropWhile Char.isDigit)
    | _ => ([], rest)
  let power ← match rest with
    | [] => some 0
    | c :: more => if c = 'e' ∨ c = 'E' then exponent? more else none
  return .ofDecimal negative (digitsValue 10 (whole ++ fraction)) (power - fraction.length)

/-- The ratio of two numerals. -/
def ratioOf (negative : Bool) (num den : List Char) : Except ReadFault Rat := do
  let n ← decimalInteger num
  let d ← decimalInteger den
  if d = 0 then .error .zeroDenominator
  else .ok (mkRat (if negative then -n else n) d.toNat)

/-- Two integers about a slash, the first with its sign dropped. -/
def ratio? (negative : Bool) (cs : List Char) : Option (Except ReadFault Rat) := do
  let (num, den) ← Text.cut? '/' cs
  guard (isNumeralOf 10 num && isNumeralOf 10 den)
  return ratioOf negative num den

/-- The number that a token stands for, if it is one. -/
def number? (token : List Char) : Option (Except ReadFault Datum) :=
  let (negative, body) := splitSign token
  match integer? body with
  | some (.ok n) => some (.ok (.int (if negative then -n else n)))
  | some (.error e) => some (.error e)
  | none =>
    match decimal? negative body with
    | some x => some (.ok (.float x))
    | none => (ratio? negative body).map fun r => r.map .ratio

end BuildFiles.Reader
