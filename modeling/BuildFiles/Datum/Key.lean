import BuildFiles.Datum.Basic
import BuildFiles.Entries

/-!
# Keys

Data as keys of maps and elements of sets. Numbers of all kinds are equal when their values are,
truth values count as zero and one, an undefined number equals nothing, and the metadata of a symbol
does not matter. A vector or map cannot be a key; `frozen` turns those that a form is written with
into lists, which can, and `keyable` says of what else that holds.
-/

namespace BuildFiles

/-- The value of a number. -/
inductive NumericValue where
  | exact (q : Rat)
  | infinite (negative : Bool)
  | undefined

namespace NumericValue

/-- Equality of numbers; an undefined number differs from itself. -/
def same : NumericValue → NumericValue → Bool
  | .exact p, .exact q => decide (p = q)
  | .infinite a, .infinite b => a == b
  | _, _ => false

/-- The value of a binary floating point number. -/
def ofBinary64 (x : Binary64) : NumericValue :=
  match x.toRat?, x.meaning with
  | some q, _ => .exact q
  | none, .infinite negative => .infinite negative
  | none, _ => .undefined

end NumericValue

namespace Datum

/-- The value of a datum that counts as a number. -/
def number? : Datum → Option NumericValue
  | .bool b => some (.exact (if b then 1 else 0))
  | .int n => some (.exact n)
  | .float x => some (.ofBinary64 x)
  | .ratio q => some (.exact q)
  | _ => none

/-- Equality of two numbers; false if one of the data is none. -/
def sameNumber (a b : Datum) : Bool :=
  match a.number?, b.number? with
  | some x, some y => x.same y
  | _, _ => false

mutual

/-- The two data are the same key. -/
def same : Datum → Datum → Bool
  | .nil, .nil => true
  | .str a, .str b => a == b
  | .symbol a _, .symbol b _ => decide (a = b)
  | .keyword a, .keyword b => decide (a = b)
  | .list xs, .list ys => sameAll xs ys
  | .vector xs, .vector ys => sameAll xs ys
  | .map xs, .map ys => sameEntries xs ys
  | .set xs, .set ys => xs.length == ys.length && allAmong xs ys
  | .regex a, .regex b => a == b
  | .tagged s _ a, .tagged t _ b => decide (s = t) && same a b
  | .splice xs, .splice ys => sameAll xs ys
  | .path p, .path q => decide (p = q)
  | .bare a, .bare b => a == b
  | .named xs, .named ys => sameArguments xs ys
  | .call f xs, .call g ys => f == g && sameAll xs ys
  | a, b => sameNumber a b

/-- The same keys in the same order. -/
def sameAll : List Datum → List Datum → Bool
  | [], [] => true
  | x :: xs, y :: ys => same x y && sameAll xs ys
  | _, _ => false

/-- The same entries in the same order. -/
def sameEntries : List (Datum × Datum) → List (Datum × Datum) → Bool
  | [], [] => true
  | (k, v) :: xs, (k', v') :: ys => same k k' && same v v' && sameEntries xs ys
  | _, _ => false

/-- The same named arguments in the same order. -/
def sameArguments : List (String × Datum) → List (String × Datum) → Bool
  | [], [] => true
  | (n, v) :: xs, (n', v') :: ys => n == n' && same v v' && sameArguments xs ys
  | _, _ => false

/-- Each of the first list is the same key as one of the second. -/
def allAmong : List Datum → List Datum → Bool
  | [], _ => true
  | x :: xs, ys => ys.any (same x ·) && allAmong xs ys

end

/-- Equality of data, wherever it is tested, is equality as keys. -/
instance : BEq Datum := ⟨same⟩

mutual

/-- The datum can be a key of a map or an element of a set. -/
def keyable : Datum → Bool
  | .vector _ => false
  | .map _ => false
  | .splice _ => false
  | .list xs => allKeyable xs
  | .tagged _ _ form => keyable form
  | .named arguments => argumentsKeyable arguments
  | .call _ arguments => allKeyable arguments
  | _ => true

/-- Each of the data can be a key. -/
def allKeyable : List Datum → Bool
  | [] => true
  | x :: xs => keyable x && allKeyable xs

/-- The value of each argument can be a key. -/
def argumentsKeyable : List (String × Datum) → Bool
  | [] => true
  | (_, v) :: xs => keyable v && argumentsKeyable xs

end

mutual

/-- The key that a datum stands for: a vector is the list of its items' keys, a map the list of its
entries, each the list of a key and the key of a value. -/
def frozen : Datum → Datum
  | .vector xs => .list (frozenAll xs)
  | .map es => .list (frozenEntries es)
  | d => d

/-- The key of each datum. -/
def frozenAll : List Datum → List Datum
  | [] => []
  | x :: xs => frozen x :: frozenAll xs

/-- The entries as lists of two. -/
def frozenEntries : List (Datum × Datum) → List Datum
  | [] => []
  | (k, v) :: es => .list [k, frozen v] :: frozenEntries es

end

/-- The entries written one after the other, none if a key cannot be one. -/
def entriesOf? : List (Datum × Datum) → Option (Entries Datum Datum)
  | es => if es.all fun e => e.1.keyable then some (Entries.ofList es) else none

/-- The elements without repetitions of a key, none if one of them cannot be one. -/
def elementsOf? (xs : List Datum) : Option (List Datum) :=
  if xs.all keyable then some xs.eraseDups else none

@[simp] theorem keyword_beq (a b : Name) :
    ((Datum.keyword a == Datum.keyword b) = true) ↔ a = b := by
  change same (.keyword a) (.keyword b) = true ↔ a = b
  simp [same]

@[simp] theorem str_beq (a b : String) : ((Datum.str a == Datum.str b) = true) ↔ a = b := by
  change same (.str a) (.str b) = true ↔ a = b
  simp [same]

end Datum

end BuildFiles
