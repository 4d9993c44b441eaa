import BuildFiles.Archive.Code
import BuildFiles.Archive.Element

/-!
# Compressed content

Decompression of content that is written as literals and as copies of what came shortly before,
in blocks whose codes are fixed, described at their head, or none. `inflate?` gives the content as
far as it goes when the compressed form ends too early, and nothing for a form that no content has.
-/

namespace BuildFiles.Archive

/-- The longest code, in bits. -/
def maxLength : Nat := 15

/-! ## Literals and copies -/

/-- The least lengths of copies by symbol, with the number of bits to add. -/
def lengthSteps : Array (Nat × Nat) :=
  #[(3, 0), (4, 0), (5, 0), (6, 0), (7, 0), (8, 0), (9, 0), (10, 0), (11, 1), (13, 1), (15, 1),
    (17, 1), (19, 2), (23, 2), (27, 2), (31, 2), (35, 3), (43, 3), (51, 3), (59, 3), (67, 4),
    (83, 4), (99, 4), (115, 4), (131, 5), (163, 5), (195, 5), (227, 5), (258, 0)]

/-- The least distances of copies by symbol, with the number of bits to add. -/
def distanceSteps : Array (Nat × Nat) :=
  #[(1, 0), (2, 0), (3, 0), (4, 0), (5, 1), (7, 1), (9, 2), (13, 2), (17, 3), (25, 3), (33, 4),
    (49, 4), (65, 5), (97, 5), (129, 6), (193, 6), (257, 7), (385, 7), (513, 8), (769, 8),
    (1025, 9), (1537, 9), (2049, 10), (3073, 10), (4097, 11), (6145, 11), (8193, 12), (12289, 12),
    (16385, 13), (24577, 13)]

/-- The value of a symbol that stands for a range of values. -/
def stepped (steps : Array (Nat × Nat)) (symbol : Nat) : Reading Nat :=
  match steps[symbol]? with
  | none => stop .invalid
  | some (least, bits) => do return least + (← number bits)

/-- The symbol that ends a block. -/
def endSymbol : Nat := 256

/-- The next element. -/
def element (literals distances : Code) : Reading Element := do
  let s ← literals.decode (number 1)
  if s < endSymbol then return .literal s.toUInt8
  else if s = endSymbol then return .ending
  else
    let length ← stepped lengthSteps (s - 257)
    let distance ← stepped distanceSteps (← distances.decode (number 1))
    return .copy length distance

/-- Go on in a block of literals and copies, over at most `fuel` elements. -/
def elements (literals distances : Code) : Nat → Bits → ByteArray → ByteArray × Except Stop Bits
  | 0, _, out => (out, .error .short)
  | fuel + 1, b, out =>
    match element literals distances b with
    | .error e => (out, .error e)
    | .ok (.ending, b) => (out, .ok b)
    | .ok (.literal byte, b) => elements literals distances fuel b (out.push byte)
    | .ok (.copy length distance, b) =>
      if distance ≤ out.size then
        elements literals distances fuel b (copyBack distance length out)
      else (out, .error .invalid)

/-! ## Blocks -/

/-- The fixed code of literals and lengths. -/
def fixedLiterals : Code :=
  .ofLengths maxLength (List.replicate 144 8 ++ List.replicate 112 9 ++ List.replicate 24 7
    ++ List.replicate 8 8)

/-- The fixed code of distances; its last two symbols stand for none. -/
def fixedDistances : Code := .ofLengths maxLength (List.replicate 32 5)

/-- The order in which the lengths of the code of code lengths are written. -/
def lengthOrder : List Nat := [16, 17, 18, 0, 8, 7, 9, 6, 10, 5, 11, 4, 12, 3, 13, 2, 14, 1, 15]

/-- That many numbers of `width` bits. -/
def numbers (width : Nat) : Nat → Reading (List Nat)
  | 0 => return []
  | n + 1 => do
    let x ← number width
    return x :: (← numbers width n)

/-- The code lengths that one symbol stands for, after those read so far, the last of them first. -/
def lengthRun (soFar : List Nat) (symbol : Nat) : Reading (List Nat) := do
  if symbol < 16 then return [symbol]
  else if symbol = 16 then
    match soFar with
    | [] => stop .invalid
    | last :: _ => return List.replicate (3 + (← number 2)) last
  else if symbol = 17 then return List.replicate (3 + (← number 3)) 0
  else return List.replicate (11 + (← number 7)) 0

/-- Read code lengths, the last of them first, until there are `wanted`. -/
def codeLengths (c : Code) (wanted : Nat) : Nat → List Nat → Reading (List Nat)
  | 0, _ => stop .short
  | fuel + 1, soFar => do
    if soFar.length = wanted then return soFar
    else if wanted < soFar.length then stop .invalid
    else
      let run ← lengthRun soFar (← c.decode (number 1))
      codeLengths c wanted fuel (run.reverse ++ soFar)

/-- The codes that a block describes at its head. -/
def describedCodes : Reading (Code × Code) := do
  let literalCount := (← number 5) + 257
  let distanceCount := (← number 5) + 1
  let lengthCount := (← number 4) + 4
  if 286 < literalCount || 30 < distanceCount then stop .invalid
  let written ← numbers 3 lengthCount
  let lengthOf (i : Nat) : Nat :=
    (((lengthOrder.zip written).find? fun e => e.1 == i).map Prod.snd).getD 0
  let c := Code.ofLengths maxLength ((List.range 19).map lengthOf)
  if !c.isComplete then stop .invalid
  let wanted := literalCount + distanceCount
  let lengths := (← codeLengths c wanted (wanted + 1) []).reverse
  let literals := Code.ofLengths maxLength (lengths.take literalCount)
  let distances := Code.ofLengths maxLength (lengths.drop literalCount)
  if lengths[endSymbol]?.getD 0 = 0 || !literals.isUsable || !distances.isUsable then
    stop .invalid
  return (literals, distances)

/-- The size of a block that is not compressed, which is written twice. -/
def plainSize : Reading Nat := do
  modify Bits.align
  let size ← number 16
  let check ← number 16
  if size + check = 0xFFFF then return size else stop .invalid

/-- Append a block that is not compressed, as far as it goes. -/
def plainBlock (b : Bits) (out : ByteArray) : ByteArray × Except Stop Bits :=
  match plainSize b with
  | .error e => (out, .error e)
  | .ok (size, b) =>
    let start := b.position / 8
    let out := out ++ b.content.extract start (start + size)
    if start + size ≤ b.content.size then
      (out, .ok { b with position := b.position + 8 * size })
    else (out, .error .short)

/-- Append one block, of one of the three kinds. -/
def block (kind : Nat) (b : Bits) (out : ByteArray) : ByteArray × Except Stop Bits :=
  if kind = 0 then plainBlock b out
  else if kind = 1 then elements fixedLiterals fixedDistances b.total b out
  else if kind = 2 then
    match describedCodes b with
    | .error e => (out, .error e)
    | .ok ((literals, distances), b) => elements literals distances b.total b out
  else (out, .error .invalid)

/-- The head of a block: whether it is the last, and its kind. -/
def blockHead : Reading (Bool × Nat) := do
  let last ← number 1
  return (last == 1, ← number 2)

/-- Append block after block, at most `fuel`, up to the one that is marked as the last. -/
def blocks : Nat → Bits → ByteArray → ByteArray × Except Stop Bits
  | 0, _, out => (out, .error .short)
  | fuel + 1, b, out =>
    match blockHead b with
    | .error e => (out, .error e)
    | .ok ((last, kind), b) =>
      match block kind b out with
      | (out, .ok b) => if last then (out, .ok b) else blocks fuel b out
      | stopped => stopped

/-- What a compressed form stands for. Each block and each element takes at least one bit, so the
number of bits bounds both. -/
def inflate? (compressed : ByteArray) : Option Unpacked :=
  let b : Bits := ⟨compressed, 0⟩
  match blocks (b.total + 1) b .empty with
  | (_, .error .invalid) => none
  | (out, .error .short) => some ⟨out, false⟩
  | (out, .ok _) => some ⟨out, true⟩

end BuildFiles.Archive
