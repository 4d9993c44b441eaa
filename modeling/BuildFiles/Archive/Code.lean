import BuildFiles.Archive.Bits

/-!
# Codes of symbols

Codes by which symbols are told from their bits, where no code is the beginning of another. A code
is fixed by the lengths of the codes of its symbols: those of one length follow each other in the
order of the symbols, after all that are shorter.
-/

namespace BuildFiles.Archive

/-- A code by which symbols are told from their bits: how many codes there are of each length from
one bit up, and the symbols in the order of their codes. -/
structure Code where
  counts : List Nat
  symbols : Array Nat

namespace Code

/-- The code in which symbol `i` has the length at `i`, at most `longest`; symbols of length zero
have no code. -/
def ofLengths (longest : Nat) (lengths : List Nat) : Code :=
  let lengthsUp := (List.range longest).map (· + 1)
  { counts := lengthsUp.map fun n => lengths.count n
    symbols := (lengthsUp.flatMap fun n =>
      lengths.zipIdx.filterMap fun (m, i) => if m = n then some i else none).toArray }

/-- How many codes of the longest length are left unused; none if there are more than can be. -/
def unused? (c : Code) : Option Nat :=
  c.counts.foldlM (fun left count => if count ≤ 2 * left then some (2 * left - count) else none) 1

/-- Every sequence of bits starts with a code. -/
def isComplete (c : Code) : Bool := c.unused? == some 0

/-- No sequence of bits starts with two codes, and if one starts with none, there is at most a
single code, of one bit. -/
def isUsable (c : Code) : Bool :=
  c.isComplete || c.unused?.isSome && c.symbols.size ≤ 1 && (c.counts.drop 1).all (· == 0)

/-- Go on with a code of which the bits so far are `code`, where the first code of this length is
`first` and its symbol is at `index`. -/
def decodeFrom (bit : Reading Nat) (symbols : Array Nat) : List Nat → Nat → Nat → Nat → Reading Nat
  | [], _, _, _ => stop .invalid
  | count :: counts, code, first, index => do
    let code := 2 * code + (← bit)
    let first := 2 * first
    if code < first + count then
      match symbols[index + (code - first)]? with
      | some s => return s
      | none => stop .invalid
    else if counts.all (· == 0) then stop .invalid
    else decodeFrom bit symbols counts code (first + count) (index + count)

/-- The symbol that the next bits are the code of. -/
def decode (c : Code) (bit : Reading Nat) : Reading Nat := decodeFrom bit c.symbols c.counts 0 0 0

end Code

end BuildFiles.Archive
