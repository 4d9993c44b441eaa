/-!
# Binary floating point numbers

The 64 bit numbers of the floating point standard, kept as their bits, with exact reading and
writing of decimals. `ofDecimal` rounds to the nearest number, ties to the even one. `text` writes
the fewest digits that read back, the nearest such decimal to the number.
-/

namespace BuildFiles

/-- A 64 bit binary floating point number. -/
structure Binary64 where
  bits : UInt64
  deriving DecidableEq, Inhabited

namespace Binary64

/-- What the bits stand for: `finite n m e` is `m · 2 ^ e`, negated if `n`. -/
inductive Meaning where
  | undefined
  | infinite (negative : Bool)
  | finite (negative : Bool) (mantissa : Nat) (exponent : Int)

/-- The sign bit is set. -/
def isNegative (x : Binary64) : Bool := x.bits >>> 63 == 1

/-- Decode the bits. -/
def meaning (x : Binary64) : Meaning :=
  let field := ((x.bits >>> 52) &&& 0x7ff).toNat
  let fraction := (x.bits &&& 0xfffffffffffff).toNat
  if field = 0x7ff then
    if fraction = 0 then .infinite x.isNegative else .undefined
  else if field = 0 then .finite x.isNegative fraction (-1074)
  else .finite x.isNegative (fraction + Nat.pow 2 52) (field - 1075)

/-- The bits of a magnitude, under a sign. -/
def signed (negative : Bool) (magnitude : Nat) : Binary64 :=
  ⟨UInt64.ofNat (if negative then magnitude + Nat.pow 2 63 else magnitude)⟩

/-- The bits of infinity without its sign. -/
def infinityBits : Nat := 0x7ff0000000000000

/-- Infinity of either sign. -/
def infinity (negative : Bool) : Binary64 := signed negative infinityBits

/-- The number that is not one. -/
def undefined : Binary64 := ⟨0x7ff8000000000000⟩

/-- The quotient rounded to a natural number, ties to the even one. -/
def roundDiv (num den : Nat) : Nat :=
  let q := num / den
  let twice := 2 * (num % den)
  if twice < den then q else if den < twice then q + 1 else q + q % 2

/-- `num / den` scaled by `2 ^ (-e)`, rounded. -/
def scaled (num den : Nat) (e : Int) : Nat :=
  if e < 0 then roundDiv (num * Nat.pow 2 (-e).toNat) den
  else roundDiv num (den * Nat.pow 2 e.toNat)

/-- The exponent `k` with `2 ^ k ≤ num / den < 2 ^ (k + 1)`. -/
def binaryExponent (num den : Nat) : Int :=
  let k : Int := Int.ofNat num.log2 - Int.ofNat den.log2
  let reaches := if k < 0 then den ≤ num * Nat.pow 2 (-k).toNat else den * Nat.pow 2 k.toNat ≤ num
  if reaches then k else k - 1

/-- The number nearest to `num / den`, ties to the even one. -/
def ofQuotient (negative : Bool) (num den : Nat) : Binary64 :=
  if num = 0 then signed negative 0
  else
    let e := max (binaryExponent num den - 52) (-1074)
    let magnitude := (e + 1074).toNat * Nat.pow 2 52 + scaled num den e
    if infinityBits ≤ magnitude then infinity negative else signed negative magnitude

/-- The number of decimal digits. -/
def digitCount (n : Nat) : Nat := (Nat.toDigits 10 n).length

/-- The number nearest to `digits · 10 ^ exponent`. -/
def ofDecimal (negative : Bool) (digits : Nat) (exponent : Int) : Binary64 :=
  let point := exponent + digitCount digits
  if digits = 0 ∨ point < -400 then signed negative 0
  else if 400 < point then infinity negative
  else if exponent < 0 then ofQuotient negative digits (Nat.pow 10 (-exponent).toNat)
  else ofQuotient negative (digits * Nat.pow 10 exponent.toNat) 1

/-- The exact value of a finite number. -/
def toRat? (x : Binary64) : Option Rat :=
  match x.meaning with
  | .finite negative m e =>
    let q : Rat := if e < 0 then mkRat m (Nat.pow 2 (-e).toNat) else mkRat (m * Nat.pow 2 e.toNat) 1
    some (if negative then -q else q)
  | _ => none

/-- The number with the other sign. -/
def negated (x : Binary64) : Binary64 := ⟨x.bits ^^^ 0x8000000000000000⟩

/-- The number nearest to a rational one; the sign is that of a zero. -/
def ofRat (negative : Bool) (q : Rat) : Binary64 :=
  ofQuotient (if q = 0 then negative else q < 0) q.num.natAbs q.den

/-- The sum. Zeros have a sum below zero only if both are. -/
def plus (x y : Binary64) : Binary64 :=
  match x.toRat?, y.toRat? with
  | some a, some b => ofRat (x.isNegative && y.isNegative) (a + b)
  | none, some _ => x
  | some _, none => y
  | none, none => if x = y then x else undefined

/-- The product with the number nearest to a whole one, which is not zero. -/
def timesNat (x : Binary64) (n : Nat) : Binary64 :=
  match x.toRat?, (ofQuotient false n 1).toRat? with
  | some a, some b => ofRat x.isNegative (a * b)
  | _, _ => x

/-! ## Decimal text -/

/-- The place `p` with `10 ^ (p - 1) ≤ num / den < 10 ^ p`. -/
def decimalPlace (num den : Nat) : Int :=
  if den ≤ num then digitCount (num / den)
  else 1 - (((List.range 400).find? fun k => den ≤ num * Nat.pow 10 k).getD 400 : Nat)

/-- The decimal of `n` digits that reads back as the magnitude `x` of value `num / den`, if one
does: of the two neighbours on the grid of such decimals the one that reads back, the nearer if both
do and the even one on a tie. -/
def readsBack? (x : Binary64) (num den : Nat) (place : Int) (n : Nat) : Option (Nat × Int) :=
  let e := place - n
  let (top, bottom) :=
    if e < 0 then (num * Nat.pow 10 (-e).toNat, den) else (num, den * Nat.pow 10 e.toNat)
  let low := top / bottom
  let lowHits := decide (ofDecimal false low e = x)
  let highHits := decide (ofDecimal false (low + 1) e = x)
  match lowHits, highHits with
  | true, true => some (roundDiv top bottom, e)
  | true, false => some (low, e)
  | false, true => some (low + 1, e)
  | false, false => none

/-- The digits and the exponent of the shortest decimal that reads back as the magnitude. -/
def shortest (m : Nat) (e : Int) : Nat × Int :=
  let (num, den) := if e < 0 then (m, Nat.pow 2 (-e).toNat) else (m * Nat.pow 2 e.toNat, 1)
  let x := ofQuotient false num den
  let place := decimalPlace num den
  ((List.range 17).findSome? fun n => readsBack? x num den place (n + 1)).getD (0, 0)

/-- Write `digits · 10 ^ exponent`: positional from `10 ^ -4` up to below `10 ^ 16`, with a mark and
at least one digit after it, and otherwise one digit, the others after a mark, and a signed exponent
of at least two digits. -/
def layOut (digits : List Char) (exponent : Int) : List Char :=
  let point := exponent + digits.length
  if -4 < point ∧ point ≤ 16 then
    if point ≤ 0 then '0' :: '.' :: List.replicate (-point).toNat '0' ++ digits
    else if digits.length ≤ point.toNat then
      digits ++ List.replicate (point.toNat - digits.length) '0' ++ ['.', '0']
    else digits.take point.toNat ++ '.' :: digits.drop point.toNat
  else
    let power := point - 1
    let powerDigits := Nat.toDigits 10 power.natAbs
    let head := digits.take 1
    let tail := digits.drop 1
    head ++ (if tail.isEmpty then [] else '.' :: tail) ++ 'e' ::
      (if power < 0 then '-' else '+') :: (if powerDigits.length < 2 then '0' :: powerDigits
        else powerDigits)

/-- Digits without the zeros at their end, which move into the exponent. -/
def withoutEndZeros (digits : List Char) (exponent : Int) : List Char × Int :=
  let kept := (digits.reverse.dropWhile (· == '0')).reverse
  (kept, exponent + (digits.length - kept.length : Nat))

/-- The number as text: the fewest digits that read back. -/
def text (x : Binary64) : String :=
  match x.meaning with
  | .undefined => "nan"
  | .infinite negative => if negative then "-inf" else "inf"
  | .finite negative m e =>
    let body :=
      if m = 0 then ['0', '.', '0']
      else
        let (d, k) := shortest m e
        let (ds, k) := withoutEndZeros (Nat.toDigits 10 d) k
        layOut ds k
    String.ofList (if negative then '-' :: body else body)

example : (ofDecimal false 15 (-1)).bits = 0x3ff8000000000000 := by decide +kernel
example : (ofDecimal false 1 16).text = "1e+16" := by decide +kernel
example : (ofDecimal true 1 (-5)).text = "-1e-05" := by decide +kernel
example : (ofDecimal false 1 (-1)).text = "0.1" := by decide +kernel

end Binary64

end BuildFiles
