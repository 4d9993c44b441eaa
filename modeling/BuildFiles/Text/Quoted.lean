import BuildFiles.Text.Printable

/-!
# Quoted text in diagnostics

A diagnostic shows a text between single quotes, or between double quotes when it holds a single
quote and no double one. The quote in use, the backslash and characters that are not printable are
escaped.
-/

namespace BuildFiles.Text

/-- The number in lower case hexadecimal digits, at least `width` of them. -/
def hexDigits (width n : Nat) : List Char :=
  let ds := Nat.toDigits 16 n
  List.replicate (width - ds.length) '0' ++ ds

/-- A character that is not printable, as `\xNN`, `\uNNNN` or `\UNNNNNNNN`. -/
def escapedCode (c : Char) : List Char :=
  if c.toNat < 0x100 then '\\' :: 'x' :: hexDigits 2 c.toNat
  else if c.toNat < 0x10000 then '\\' :: 'u' :: hexDigits 4 c.toNat
  else '\\' :: 'U' :: hexDigits 8 c.toNat

/-- One character of a text between the quotes `q`. -/
def quotedChar (q c : Char) : List Char :=
  if c = '\\' then ['\\', '\\']
  else if c = q then ['\\', q]
  else if c = '\n' then ['\\', 'n']
  else if c = '\t' then ['\\', 't']
  else if c = '\r' then ['\\', 'r']
  else if isPrintable c then [c]
  else escapedCode c

/-- The quote that a text is shown between. -/
def quoteFor (cs : List Char) : Char :=
  if cs.contains '\'' && !cs.contains '"' then '"' else '\''

/-- The text as a diagnostic shows it. -/
def quoted (s : String) : String :=
  let q := quoteFor s.toList
  String.ofList (q :: s.toList.flatMap (quotedChar q) ++ [q])

example : quoted "it's" = "\"it's\"" := by decide +kernel
example : quoted "a\nb" = "'a\\nb'" := by decide +kernel

end BuildFiles.Text
