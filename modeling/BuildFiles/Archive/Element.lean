import BuildFiles.Archive.Bits

/-!
# Elements of a compressed content

What a compressed form is made of: bytes as they are, and copies of what came before.
-/

namespace BuildFiles.Archive

/-- An element of a compressed form. -/
inductive Element where
  | literal (byte : UInt8)
  /-- bytes to copy from the given distance before the end -/
  | copy (length distance : Nat)
  | ending

/-- Append `n` bytes, each of which is the one `distance` before it. -/
def copyBack (distance : Nat) : Nat → ByteArray → ByteArray
  | 0, out => out
  | n + 1, out => copyBack distance n (out.push (out[out.size - distance]?.getD 0))

end BuildFiles.Archive
