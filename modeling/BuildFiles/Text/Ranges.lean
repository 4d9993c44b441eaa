/-!
# Ranges of characters

A property of characters that a standard fixes by a table is written here as the list of its code
point ranges, both ends included. `within` is membership in such a table.
-/

namespace BuildFiles.Text

/-- The character lies in one of the ranges. -/
def within (ranges : List (Nat × Nat)) (c : Char) : Bool :=
  ranges.any fun r => r.1 ≤ c.toNat && c.toNat ≤ r.2

end BuildFiles.Text
