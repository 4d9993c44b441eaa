/-!
# Checksums

The cyclic redundancy check of 32 bits that archives keep for each entry: the remainder of the
content as a polynomial over two elements, with the bits of a byte taken from the lowest up. Content
in sorted blocks has the same check with the bits of a byte taken from the highest down.
-/

namespace BuildFiles.Archive

/-- The coefficients of the divisor, without its highest. -/
def divisor : UInt32 := 0xEDB88320

/-- Take in one bit, which is the lowest of the remainder. -/
def takeBit (c : UInt32) : UInt32 := if c &&& 1 = 1 then divisor ^^^ (c >>> 1) else c >>> 1

/-- Take in one byte. -/
def takeByte (c : UInt32) (b : UInt8) : UInt32 := Nat.repeat takeBit 8 (c ^^^ b.toUInt32)

/-- The checksum of a content. -/
def checksum (content : ByteArray) : UInt32 :=
  content.foldl takeByte 0xFFFFFFFF ^^^ 0xFFFFFFFF

/-- The coefficients of the divisor from the highest down. -/
def highDivisor : UInt32 := 0x04C11DB7

/-- Take in one bit, which is the highest of the remainder. -/
def takeHighBit (c : UInt32) : UInt32 :=
  if c >>> 31 = 1 then highDivisor ^^^ (c <<< 1) else c <<< 1

/-- Take in one byte from its highest bit down. -/
def takeHighByte (c : UInt32) (b : UInt8) : UInt32 :=
  Nat.repeat takeHighBit 8 (c ^^^ b.toUInt32 <<< 24)

/-- The checksum of a content with the bits of a byte taken from the highest down. -/
def checksumFromTop (content : ByteArray) : UInt32 :=
  content.foldl takeHighByte 0xFFFFFFFF ^^^ 0xFFFFFFFF

example : checksumFromTop "123456789".toUTF8 = 0xFC891918 := by decide +kernel
example : checksum "123456789".toUTF8 = 0xCBF43926 := by decide +kernel

end BuildFiles.Archive
