import BuildFiles.Datum.Basic
import BuildFiles.Text.Digit
import BuildFiles.Text.Quoted

/-!
# Data in diagnostics

`Datum.shown` writes a datum so that its kind can be told, with text between quotes. `Datum.text`
writes it plainly: text, symbols and keywords as they are, all else as `shown`. Integers are written
with a bounded number of digits only; `Datum.holdsLongInteger` tells the data that neither writes.
-/

namespace BuildFiles.Datum

/-- The integer has more decimal digits than integers are written with. -/
def isLong (n : Int) : Bool := decide (Text.longestNumeral < (Nat.toDigits 10 n.natAbs).length)

/-- The rational number as text. -/
def ratioText (q : Rat) : String :=
  if q.den = 1 then toString q.num else toString q.num ++ "/" ++ toString q.den

/-- The word for the kind of a datum. -/
def kindName : Datum → String
  | .nil => "NoneType"
  | .bool _ => "bool"
  | .int _ => "int"
  | .float _ => "float"
  | .ratio _ => "Fraction"
  | .str _ => "str"
  | .symbol .. => "Symbol"
  | .keyword _ => "Keyword"
  | .list _ => "tuple"
  | .vector _ => "list"
  | .map _ => "dict"
  | .set _ => "frozenset"
  | .regex _ => "Regex"
  | .tagged .. => "TaggedLiteral"
  | .splice _ => "_Splice"
  | .path _ => "PurePosixPath"
  | .bare _ => "Sym"
  | .named _ => "KwArgs"
  | .call .. => "Call"

/-- A text, or the word for its absence. -/
def shownOption : Option String → String
  | some s => Text.quoted s
  | none => "None"

/-- A name under the word for its kind. -/
def shownName (kind : String) (n : Name) : String :=
  kind ++ "(name=" ++ Text.quoted n.base ++ ", ns=" ++ shownOption n.space ++ ")"

/-- Items between parentheses, with a comma after a single one. -/
def inParentheses : List String → String
  | [s] => "(" ++ s ++ ",)"
  | ss => "(" ++ ", ".intercalate ss ++ ")"

mutual

/-- The datum as a diagnostic shows it. -/
def shown : Datum → String
  | .nil => "None"
  | .bool b => if b then "True" else "False"
  | .int n => toString n
  | .float x => x.text
  | .ratio q => "Fraction(" ++ toString q.num ++ ", " ++ toString q.den ++ ")"
  | .str s => Text.quoted s
  | .symbol n _ => shownName "Symbol" n
  | .keyword n => shownName "Keyword" n
  | .list xs => inParentheses (shownAll xs)
  | .vector xs => "[" ++ ", ".intercalate (shownAll xs) ++ "]"
  | .map es => "\x7b" ++ ", ".intercalate (shownEntries es) ++ "\x7d"
  | .set [] => "frozenset()"
  | .set xs => "frozenset(\x7b" ++ ", ".intercalate (shownAll xs) ++ "\x7d)"
  | .regex s => "Regex(pattern=" ++ Text.quoted s ++ ")"
  | .tagged t _ form =>
    "TaggedLiteral(tag=" ++ shownName "Symbol" t ++ ", form=" ++ shown form ++ ")"
  | .splice xs => "_Splice(forms=[" ++ ", ".intercalate (shownAll xs) ++ "])"
  | .path p => "PurePosixPath(" ++ Text.quoted p.toText ++ ")"
  | .bare s => "Sym(name=" ++ Text.quoted s ++ ")"
  | .named arguments => "KwArgs(items=" ++ inParentheses (shownArguments arguments) ++ ")"
  | .call f arguments =>
    "Call(name=" ++ Text.quoted f ++ ", args=" ++ inParentheses (shownAll arguments) ++ ")"

/-- Each datum as shown. -/
def shownAll : List Datum → List String
  | [] => []
  | x :: xs => shown x :: shownAll xs

/-- Each entry as shown, key and value about a colon. -/
def shownEntries : List (Datum × Datum) → List String
  | [] => []
  | (k, v) :: es => (shown k ++ ": " ++ shown v) :: shownEntries es

/-- Each argument as a pair of its name and its value. -/
def shownArguments : List (String × Datum) → List String
  | [] => []
  | (n, v) :: es => ("(" ++ Text.quoted n ++ ", " ++ shown v ++ ")") :: shownArguments es

end

mutual

/-- An integer that is too long to be written occurs in what is shown of the datum. -/
def holdsLongInteger : Datum → Bool
  | .int n => isLong n
  | .ratio q => isLong q.num || isLong q.den
  | .list xs => anyHoldsLong xs
  | .vector xs => anyHoldsLong xs
  | .map es => anyEntryHoldsLong es
  | .set xs => anyHoldsLong xs
  | .tagged _ _ form => holdsLongInteger form
  | .splice xs => anyHoldsLong xs
  | .named arguments => anyArgumentHoldsLong arguments
  | .call _ arguments => anyHoldsLong arguments
  | _ => false

/-- One of the data holds such an integer. -/
def anyHoldsLong : List Datum → Bool
  | [] => false
  | x :: xs => holdsLongInteger x || anyHoldsLong xs

/-- The key or the value of one of the entries holds such an integer. -/
def anyEntryHoldsLong : List (Datum × Datum) → Bool
  | [] => false
  | (k, v) :: es => holdsLongInteger k || holdsLongInteger v || anyEntryHoldsLong es

/-- The value of one of the arguments holds such an integer. -/
def anyArgumentHoldsLong : List (String × Datum) → Bool
  | [] => false
  | (_, v) :: es => holdsLongInteger v || anyArgumentHoldsLong es

end

/-- The datum as plain text. -/
def text : Datum → String
  | .str s => s
  | .symbol n _ => n.text
  | .keyword n => ":" ++ n.text
  | .ratio q => ratioText q
  | .path p => p.toText
  | d => shown d

end BuildFiles.Datum
