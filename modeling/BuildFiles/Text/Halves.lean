/-!
# Halves of characters

A character beyond 16 bits may be written by two numbers of 16 bits, its halves. A half alone is the
code point of no character, and no text holds one.
-/

namespace BuildFiles.Text

/-- The number is the first half of a character. -/
def isHighHalf (n : Nat) : Bool := 0xd800 ≤ n && n < 0xdc00

/-- The number is the second half of a character. -/
def isLowHalf (n : Nat) : Bool := 0xdc00 ≤ n && n < 0xe000

/-- The number is half of a character. -/
def isHalf (n : Nat) : Bool := isHighHalf n || isLowHalf n

/-- The character that two halves stand for. -/
def joinedHalves (high low : Nat) : Char :=
  Char.ofNat (0x10000 + (high - 0xd800) * 0x400 + (low - 0xdc00))

/-- The character of a code point; half of one is replaced. -/
def wholeChar (n : Nat) : Char := if isHalf n then '\ufffd' else Char.ofNat n

end BuildFiles.Text
