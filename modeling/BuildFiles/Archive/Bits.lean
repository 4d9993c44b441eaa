/-!
# Bits

A content as the sequence of its bits, those of a byte from the lowest up or from the highest down.
Taking a number from the lowest bits up takes its lowest bit first. The compressed forms of content
are read by computations that stop where a form ends too early, or is one that no content has.
-/

namespace BuildFiles.Archive

/-- What is left to read of a content: the bits from a position on. -/
structure Bits where
  content : ByteArray
  position : Nat

namespace Bits

/-- The number of bits in all. -/
def total (b : Bits) : Nat := 8 * b.content.size

/-- The next bit as a number. -/
def next? (b : Bits) : Option (Nat × Bits) :=
  match b.content[b.position / 8]? with
  | none => none
  | some byte => some (byte.toNat >>> (b.position % 8) % 2, { b with position := b.position + 1 })

/-- The number in the next bits, of which there are to be that many. -/
def take? : Nat → Bits → Option (Nat × Bits)
  | 0, b => some (0, b)
  | n + 1, b => do
    let (low, b) ← b.next?
    let (high, b) ← take? n b
    return (low + 2 * high, b)

/-- What is left from the next whole byte on. -/
def align (b : Bits) : Bits := { b with position := (b.position + 7) / 8 * 8 }

/-- The next bit as a number, where those of a byte come from the highest down. -/
def nextHigh? (b : Bits) : Option (Nat × Bits) :=
  match b.content[b.position / 8]? with
  | none => none
  | some byte =>
    some (byte.toNat >>> (7 - b.position % 8) % 2, { b with position := b.position + 1 })

end Bits

/-- Why decompression stops. -/
inductive Stop where
  | short
  | invalid
  deriving DecidableEq

/-- Computations that read bits. -/
abbrev Reading := StateT Bits (Except Stop)

/-- Stop. -/
def stop {α : Type} (why : Stop) : Reading α := fun _ => .error why

/-- The number in the next bits, from its lowest bit up. -/
def number (n : Nat) : Reading Nat := fun b =>
  match b.take? n with
  | some r => .ok r
  | none => .error .short

/-- The next bit, where those of a byte come from the highest down. -/
def highBit : Reading Nat := fun b =>
  match b.nextHigh? with
  | some r => .ok r
  | none => .error .short

/-- The number in the next bits, from its highest bit down. -/
def highNumber : Nat → Reading Nat
  | 0 => return 0
  | n + 1 => do
    let bit ← highBit
    return bit * Nat.pow 2 n + (← highNumber n)

/-- What a compressed form stands for, as far as it goes. -/
structure Unpacked where
  content : ByteArray
  /-- the form goes up to its end -/
  isWhole : Bool

end BuildFiles.Archive
