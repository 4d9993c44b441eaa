import BuildFiles.Archive.Checksum
import BuildFiles.Archive.Code
import BuildFiles.Archive.Disturbance

/-!
# Content in sorted blocks

Decompression of content that is cut into blocks. Of each block all rotations are sorted, and the
last bytes of them are kept, as places in the list of bytes that were used last. Before that, four
equal bytes in a row are followed by how many more there are. `unsort?` gives the content of the
blocks that are there as a whole, and nothing for a form that no content has. Numbers have their
highest bit first.
-/

namespace BuildFiles.Archive.SortedBlocks

/-- The next bytes are the given ones. -/
def expect : List UInt8 → Reading Unit
  | [] => return
  | b :: bs => do
    if (← highNumber 8) = b.toNat then expect bs else stop .invalid

/-- The positions of the ones among the next bits, of which there are that many. -/
def ones (count : Nat) : Reading (List Nat) := do
  let bits ← highNumber count
  return (List.range count).filter fun i => bits.testBit (count - 1 - i)

/-- The bytes that a block uses, in order: first in which sixteenths they are, then which. -/
def usedBytes : Reading (List Nat) := do
  let rows ← ones 16
  return (← rows.mapM fun row => return (← ones 16).map (16 * row + ·)).flatten

/-- The item at a place, and the list with it moved to the front. -/
def moveToFront? {α : Type} (xs : List α) (place : Nat) : Option (α × List α) :=
  xs[place]?.map fun x => (x, x :: xs.eraseIdx place)

/-- A number in ones up to a zero, less than `bound`. -/
def unary : Nat → Reading Nat
  | 0 => stop .invalid
  | bound + 1 => do
    if (← highBit) = 0 then return 0 else return (← unary bound) + 1

/-- Which of the codes each run of symbols is in, where `order` has the codes used last in front. -/
def selectors (codes : Nat) : Nat → List Nat → Reading (List Nat)
  | 0, _ => return []
  | n + 1, order => do
    match moveToFront? order (← unary codes) with
    | some (s, order) => return s :: (← selectors codes n order)
    | none => stop .invalid

/-- The longest code, in bits. -/
def maxLength : Nat := 20

/-- The length of a code, written as steps from the length before, of which there are at most
`fuel`. -/
def lengthFrom : Nat → Nat → Reading Nat
  | 0, _ => stop .short
  | fuel + 1, length => do
    if length < 1 || maxLength < length then stop .invalid
    else if (← highBit) = 0 then return length
    else if (← highBit) = 0 then lengthFrom fuel (length + 1)
    else lengthFrom fuel (length - 1)

/-- The lengths of that many codes. -/
def lengthsFrom : Nat → Nat → Reading (List Nat)
  | 0, _ => return []
  | n + 1, length => do
    let length ← lengthFrom (← get).total length
    return length :: (← lengthsFrom n length)

/-- The code for symbols below a number. -/
def code (symbols : Nat) : Reading Code := do
  return .ofLengths maxLength (← lengthsFrom symbols (← highNumber 5))

/-- The symbols that one selector is for. -/
def selectorRun : Nat := 50

/-- More than the largest weight of a symbol in the size of a run. -/
def maxWeight : Nat := Nat.pow 2 21

/-- What reading the symbols of a block keeps. -/
structure Progress where
  /-- the selectors from the one in use on -/
  selectors : List Nat
  /-- how many symbols the one in use is still for -/
  left : Nat
  /-- the bytes used, the last one first -/
  order : List Nat
  /-- the size of the run of the first of them, as far as it is written -/
  run : Nat
  /-- the weight of the next symbol in it -/
  weight : Nat
  bytes : ByteArray

/-- Append a run. -/
def Progress.afterRun (p : Progress) : Progress :=
  let byte := (p.order.head?.getD 0).toUInt8
  { p with bytes := Nat.repeat (·.push byte) p.run p.bytes, run := 0, weight := 1 }

/-- The next symbol. -/
def symbol (codes : Array Code) (p : Progress) : Reading (Nat × Progress) := do
  let p := if p.left = 0 then { p with selectors := p.selectors.drop 1, left := selectorRun } else p
  match p.selectors.head?.bind fun s => codes[s]? with
  | some c => return (← c.decode highBit, { p with left := p.left - 1 })
  | none => stop .invalid

/-- The last bytes of the sorted rotations, at most `limit`, read over at most `fuel` symbols. -/
def lastBytes (codes : Array Code) (ending limit : Nat) : Nat → Progress → Reading ByteArray
  | 0, _ => stop .short
  | fuel + 1, p => do
    let (s, p) ← symbol codes p
    if s < 2 then
      if maxWeight ≤ p.weight then stop .invalid
      lastBytes codes ending limit fuel
        { p with run := p.run + (s + 1) * p.weight, weight := 2 * p.weight }
    else
      if limit < p.bytes.size + p.run then stop .invalid
      let p := p.afterRun
      if s = ending then return p.bytes
      match moveToFront? p.order (s - 1) with
      | some (byte, order) =>
        if limit ≤ p.bytes.size then stop .invalid
        lastBytes codes ending limit fuel { p with order, bytes := p.bytes.push byte.toUInt8 }
      | none => stop .invalid

/-! ## From the last bytes to the content -/

/-- For each byte, at which rotation those that start with it begin. -/
def firstRotations (bytes : ByteArray) : Array Nat :=
  let counts := bytes.foldl (fun counts b => counts.modify b.toNat (· + 1)) (Array.replicate 256 0)
  (counts.foldl (fun (firsts, sum) n => (firsts.push sum, sum + n)) (#[], 0)).1

/-- For each rotation, which rotation starts one byte later. -/
def followers (bytes : ByteArray) : Array Nat :=
  let start := (Array.replicate bytes.size 0, firstRotations bytes, 0)
  (bytes.foldl (fun (next, firsts, i) b =>
    (next.setIfInBounds (firsts[b.toNat]?.getD 0) i, firsts.modify b.toNat (· + 1), i + 1)) start).1

/-- Append that many bytes, going from rotation to rotation. -/
def unrotated (bytes : ByteArray) (next : Array Nat) : Nat → Nat → ByteArray → ByteArray
  | 0, _, out => out
  | n + 1, rotation, out =>
    unrotated bytes next n (next[rotation]?.getD 0) (out.push (bytes[rotation]?.getD 0))

/-- Content with its runs written out, and the last byte with how often it came in a row. -/
structure Runs where
  content : ByteArray := .empty
  last : UInt8 := 0
  count : Nat := 0

/-- Take in a byte, which after four equal ones says how many more there are. -/
def Runs.push (r : Runs) (b : UInt8) : Runs :=
  if r.count = 4 then
    { content := Nat.repeat (·.push r.last) b.toNat r.content, last := r.last, count := 0 }
  else
    { content := r.content.push b, last := b
      count := if 0 < r.count && r.last = b then r.count + 1 else 1 }

/-- The content of a block, from the last bytes of its sorted rotations and which of them it is. -/
def blockContent (isDisturbed : Bool) (bytes : ByteArray) (rotation : Nat) : ByteArray :=
  let next := followers bytes
  let unsorted := unrotated bytes next bytes.size (next[rotation]?.getD 0) .empty
  let content := if isDisturbed then disturbed unsorted else unsorted
  (content.foldl Runs.push {}).content

/-! ## Blocks -/

/-- The content of a block of at most `limit` bytes and its checksum. -/
def block (limit : Nat) : Reading (ByteArray × Nat) := do
  let written ← highNumber 32
  let isDisturbed := (← highBit) ≠ 0
  let rotation ← highNumber 24
  if limit + 10 < rotation then stop .invalid
  let used ← usedBytes
  if used.isEmpty then stop .invalid
  let codeCount ← highNumber 3
  if codeCount < 2 || 6 < codeCount then stop .invalid
  let selectorCount ← highNumber 15
  if selectorCount = 0 then stop .invalid
  let chosen ← selectors codeCount selectorCount (List.range codeCount)
  let codes ← (List.replicate codeCount ()).mapM fun _ => code (used.length + 2)
  let progress : Progress := ⟨chosen, selectorRun, used, 0, 1, .empty⟩
  let bytes ← lastBytes codes.toArray (used.length + 1) limit (← get).total progress
  if bytes.size ≤ rotation then stop .invalid
  let content := blockContent isDisturbed bytes rotation
  if (checksumFromTop content).toNat = written then return (content, written) else stop .invalid

/-- What a block starts with. -/
def blockMark : List UInt8 := [0x31, 0x41, 0x59, 0x26, 0x53, 0x59]

/-- What the end starts with. -/
def endMark : List UInt8 := [0x17, 0x72, 0x45, 0x38, 0x50, 0x90]

/-- Whether a block is next, after its mark, or the end. -/
def startsBlock : Reading Bool := do
  let first ← highNumber 8
  let mark := if some first = blockMark.head?.map UInt8.toNat then blockMark else endMark
  if some first ≠ mark.head?.map UInt8.toNat then stop .invalid
  expect (mark.drop 1)
  return mark == blockMark

/-- The checksum of all blocks after one more. -/
def combined (sum one : Nat) : Nat :=
  ((2 * sum) % Nat.pow 2 32 + sum / Nat.pow 2 31) ^^^ one

/-- The next block with the checksum of all blocks up to it, or nothing at the end. -/
def blockOrEnd (limit sum : Nat) : Reading (Option (ByteArray × Nat)) := do
  if ← startsBlock then
    let (content, one) ← block limit
    return some (content, combined sum one)
  else if (← highNumber 32) = sum then return none
  else stop .invalid

/-- Append block after block, at most `fuel`. -/
def blocks (limit : Nat) : Nat → Bits → Nat → ByteArray → ByteArray × Except Stop Unit
  | 0, _, _, out => (out, .error .short)
  | fuel + 1, b, sum, out =>
    match blockOrEnd limit sum b with
    | .error e => (out, .error e)
    | .ok (none, _) => (out, .ok ())
    | .ok (some (content, sum), b) => blocks limit fuel b sum (out ++ content)

/-- The most bytes of a block, after the mark of the whole form. -/
def limit : Reading Nat := do
  expect "BZh".toUTF8.data.toList
  let digit ← highNumber 8
  if 0x31 ≤ digit && digit ≤ 0x39 then return 100000 * (digit - 0x30) else stop .invalid

end BuildFiles.Archive.SortedBlocks

namespace BuildFiles.Archive

/-- What a form in sorted blocks stands for. -/
def unsort? (compressed : ByteArray) : Option Unpacked :=
  let b : Bits := ⟨compressed, 0⟩
  match SortedBlocks.limit b with
  | .error .invalid => none
  | .error .short => some ⟨.empty, false⟩
  | .ok (limit, b) =>
    match SortedBlocks.blocks limit (b.total + 1) b 0 .empty with
    | (_, .error .invalid) => none
    | (out, .error .short) => some ⟨out, false⟩
    | (out, .ok ()) => some ⟨out, true⟩

end BuildFiles.Archive
