import BuildFiles.Archive.Element

/-!
# Content under a range code

Decompression of content that is written as literals and copies, each by decisions between two
cases. How likely the cases of a decision are is learned from how it went before, and a decision
narrows the range of numbers that the form may stand for by that much. `unrange?` gives the content
as far as it goes when the compressed form ends too early, and nothing for a form that no content
has.
-/

namespace BuildFiles.Archive.RangeCoded

/-! ## Decisions -/

/-- What reading a compressed form keeps. -/
structure Coder where
  form : ByteArray
  /-- where the next byte is -/
  position : Nat
  /-- the size of the range -/
  range : Nat
  /-- where the number stands in the range -/
  number : Nat
  /-- how likely the first case of each decision is, in parts of `unit` -/
  chances : Array Nat

/-- Computations that read decisions. -/
abbrev Deciding := StateT Coder (Except Stop)

/-- The parts that a chance is counted in. -/
def unit : Nat := 2048

/-- Read a byte when the range has become small. -/
def widen : Deciding Unit := fun c =>
  if Nat.pow 2 24 ≤ c.range then .ok ((), c)
  else
    match c.form[c.position]? with
    | none => .error .short
    | some byte =>
      .ok ((), { c with position := c.position + 1, range := 256 * c.range
                        number := 256 * c.number + byte.toNat })

/-- The case of a decision, and what is learned of it. -/
def decide (i : Nat) : Deciding Nat := do
  widen
  let c ← get
  let chance := c.chances[i]?.getD 0
  let bound := c.range / unit * chance
  if c.number < bound then
    set { c with range := bound
                 chances := c.chances.setIfInBounds i (chance + (unit - chance) / 32) }
    return 0
  else
    set { c with range := c.range - bound, number := c.number - bound
                 chances := c.chances.setIfInBounds i (chance - chance / 32) }
    return 1

/-- A number of that many bits, from the highest down, each of two like cases. -/
def even : Nat → Deciding Nat
  | 0 => return 0
  | n + 1 => do
    widen
    let c ← get
    let half := c.range / 2
    let bit := if c.number < half then 0 else 1
    set { c with range := half, number := c.number - bit * half }
    return bit * Nat.pow 2 n + (← even n)

/-- The rest of a number of which the bits so far, after a one, are `path`. The decision on a bit is
told by those before it. -/
def branch (base : Nat) : Nat → Nat → Deciding Nat
  | 0, path => return path
  | n + 1, path => do branch base n (2 * path + (← decide (base + path)))

/-- A number of that many bits, from the highest down. -/
def tree (base bits : Nat) : Deciding Nat := do
  return (← branch base bits 1) - Nat.pow 2 bits

/-- A number of that many bits, from the lowest up. -/
def upTree (base : Nat) : Nat → Nat → Deciding Nat
  | 0, _ => return 0
  | n + 1, path => do
    let bit ← decide (base + path)
    return bit + 2 * (← upTree base n (2 * path + bit))

/-! ## Where the decisions are -/

/-- How the place of a byte and the byte before it tell decisions apart. -/
structure Properties where
  /-- the high bits of the byte before that tell decisions on literals apart -/
  contextBits : Nat
  /-- the low bits of the place that tell decisions on literals apart -/
  literalBits : Nat
  /-- the low bits of the place that tell the other decisions apart -/
  placeBits : Nat

/-- Whether a literal is next. -/
def isCopyAt (kind place : Nat) : Nat := 16 * kind + place

/-- Whether a copy is from a distance used before. -/
def isOldAt (kind : Nat) : Nat := 192 + kind

/-- Whether it is not from the last distance, not from the one before, not from the third. -/
def isFirstAt (kind : Nat) : Nat := 204 + kind

@[inherit_doc isFirstAt]
def isSecondAt (kind : Nat) : Nat := 216 + kind

@[inherit_doc isFirstAt]
def isThirdAt (kind : Nat) : Nat := 228 + kind

/-- Whether a copy from the last distance is of more than one byte. -/
def isLongAt (kind place : Nat) : Nat := 240 + 16 * kind + place

/-- The rough distance of a copy of a length. -/
def slotAt (length : Nat) : Nat := 432 + 64 * min (length - 2) 3

/-- The lower bits of a distance. -/
def lowerAt (start slot : Nat) : Nat := 688 + start - slot

/-- The lowest bits of a large distance. -/
def lowestAt : Nat := 816

/-- The lengths of copies from new and from old distances. -/
def newLengthAt : Nat := 832

@[inherit_doc newLengthAt]
def oldLengthAt : Nat := 1346

/-- The literals. -/
def literalAt : Nat := 1860

/-- How many decisions there are. -/
def decisions (p : Properties) : Nat := literalAt + 768 * Nat.pow 2 (p.contextBits + p.literalBits)

/-! ## Elements -/

/-- What came before. -/
structure History where
  /-- what the last elements were, in one number -/
  kind : Nat := 0
  /-- the last four distances, less one -/
  first : Nat := 0
  second : Nat := 0
  third : Nat := 0
  fourth : Nat := 0

/-- The length of a copy. -/
def length (base place : Nat) : Deciding Nat := do
  if (← decide base) = 0 then return 2 + (← tree (base + 2 + 8 * place) 3)
  else if (← decide (base + 1)) = 0 then return 10 + (← tree (base + 130 + 8 * place) 3)
  else return 18 + (← tree (base + 258) 8)

/-- A new distance for a copy of a length, less one. -/
def distance (size : Nat) : Deciding Nat := do
  let slot ← tree (slotAt size) 6
  if slot < 4 then return slot
  let bits := slot / 2 - 1
  let start := (2 + slot % 2) * Nat.pow 2 bits
  if slot < 14 then return start + (← upTree (lowerAt start slot) bits 1)
  else
    let high ← even (bits - 4)
    return start + 16 * high + (← upTree lowestAt 4 1)

/-- The byte that is a distance before the end, less one. -/
def byteBefore (out : ByteArray) (distance : Nat) : Nat :=
  if distance < out.size then (out[out.size - 1 - distance]?.getD 0).toNat else 0

/-- The rest of a literal after a copy, where the byte that would have been copied next tells
decisions apart as long as it agrees. -/
def besideCopy (base copied : Nat) : Nat → Nat → Bool → Deciding Nat
  | 0, path, _ => return path
  | n + 1, path, agrees => do
    let expected := copied / Nat.pow 2 n % 2
    let bit ← decide (base + (if agrees then 256 * (1 + expected) else 0) + path)
    besideCopy base copied n (2 * path + bit) (agrees && bit == expected)

/-- A literal. -/
def literal (p : Properties) (h : History) (out : ByteArray) : Deciding Nat := do
  let place := out.size % Nat.pow 2 p.literalBits
  let context := byteBefore out 0 / Nat.pow 2 (8 - p.contextBits)
  let base := literalAt + 768 * (place * Nat.pow 2 p.contextBits + context)
  let path ← if h.kind < 7 then branch base 8 1
    else besideCopy base (byteBefore out h.first) 8 1 true
  return path - 256

/-- The kind after a literal. -/
def kindAfterLiteral (kind : Nat) : Nat :=
  if kind < 4 then 0 else if kind < 10 then kind - 3 else kind - 6

/-- The distance that is written for the end. -/
def endDistance : Nat := Nat.pow 2 32 - 1

/-- A copy from a new distance, or the end. -/
def newCopy (h : History) (place : Nat) : Deciding (Element × History) := do
  let size ← length newLengthAt place
  let d ← distance size
  if d = endDistance then
    widen
    if (← get).number = 0 then return (.ending, h) else throw .invalid
  else return (.copy size (d + 1), ⟨if h.kind < 7 then 7 else 10, d, h.first, h.second, h.third⟩)

/-- A copy from a distance used before. -/
def oldCopy (h : History) (place : Nat) : Deciding (Element × History) := do
  let long (h : History) : Deciding (Element × History) := do
    let size ← length oldLengthAt place
    return (.copy size (h.first + 1), { h with kind := if h.kind < 7 then 8 else 11 })
  if (← decide (isFirstAt h.kind)) = 0 then
    if (← decide (isLongAt h.kind place)) = 0 then
      return (.copy 1 (h.first + 1), { h with kind := if h.kind < 7 then 9 else 11 })
    else long h
  else if (← decide (isSecondAt h.kind)) = 0 then
    long { h with first := h.second, second := h.first }
  else if (← decide (isThirdAt h.kind)) = 0 then
    long { h with first := h.third, second := h.first, third := h.second }
  else long ⟨h.kind, h.fourth, h.first, h.second, h.third⟩

/-- The next element. -/
def element (p : Properties) (h : History) (out : ByteArray) : Deciding (Element × History) := do
  let place := out.size % Nat.pow 2 p.placeBits
  if (← decide (isCopyAt h.kind place)) = 0 then
    return (.literal (← literal p h out).toUInt8, { h with kind := kindAfterLiteral h.kind })
  else if (← decide (isOldAt h.kind)) = 0 then newCopy h place
  else if out.isEmpty then throw .invalid
  else oldCopy h place

/-- Append element after element, at most `fuel`. -/
def elements (p : Properties) : Nat → Coder → History → ByteArray → ByteArray × Except Stop Unit
  | 0, _, _, out => (out, .error .short)
  | fuel + 1, c, h, out =>
    match element p h out c with
    | .error e => (out, .error e)
    | .ok ((.ending, _), _) => (out, .ok ())
    | .ok ((.literal byte, h), c) => elements p fuel c h (out.push byte)
    | .ok ((.copy size distance, h), c) =>
      if distance ≤ out.size then elements p fuel c h (copyBack distance size out)
      else (out, .error .invalid)

/-! ## Forms -/

/-- How many decisions a byte can be for, at the most. -/
def decisionsPerByte : Nat := 400

/-- What the first byte of the properties stands for. -/
def propertiesOf? (byte : Nat) : Option Properties :=
  let p : Properties := ⟨byte % 9, byte / 9 % 5, byte / 45⟩
  if p.placeBits ≤ 4 && p.contextBits + p.literalBits ≤ 4 then some p else none

/-- The coder before the first decision, which is after five bytes, of which the first is zero. -/
def start (p : Properties) (form : ByteArray) : Except Stop Coder :=
  if form[0]?.any (· ≠ 0) then .error .invalid
  else if form.size < 5 then .error .short
  else
    let number := (List.range 4).foldl
      (fun number i => 256 * number + (form[i + 1]?.getD 0).toNat) 0
    .ok ⟨form, 5, Nat.pow 2 32 - 1, number, Array.replicate (decisions p) (unit / 2)⟩

/-- What the decisions stand for. -/
def unpacked? (p : Properties) (form : ByteArray) : Option Unpacked :=
  match start p form with
  | .error .invalid => none
  | .error .short => some ⟨.empty, false⟩
  | .ok c =>
    match elements p (decisionsPerByte * (form.size + 1)) c {} .empty with
    | (_, .error .invalid) => none
    | (out, .error .short) => some ⟨out, false⟩
    | (out, .ok ()) => some ⟨out, true⟩

end BuildFiles.Archive.RangeCoded

namespace BuildFiles.Archive

open RangeCoded in
/-- What a form under a range code stands for, after two bytes on its version, two on how many bytes
of properties there are, and these. -/
def unrange? (compressed : ByteArray) : Option Unpacked :=
  let byteAt (i : Nat) : Nat := (compressed[i]?.getD 0).toNat
  let size := byteAt 2 + 256 * byteAt 3
  if compressed.size ≤ 4 + size || compressed.size ≤ 4 then some ⟨.empty, false⟩
  else do
    guard (size = 5)
    unpacked? (← propertiesOf? (byteAt 4)) (compressed.extract 9 compressed.size)

end BuildFiles.Archive
