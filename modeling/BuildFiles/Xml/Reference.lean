import BuildFiles.Reader.Numeral
import BuildFiles.Xml.Name

/-!
# References of XML

A reference stands between an ampersand and a semicolon. It gives a character by its number or by
one of the five names that every document knows, or it names an entity that the document declares.
-/

namespace BuildFiles.Xml

/-- What a reference is to. -/
inductive Reference where
  | char (c : Char)
  | entity (name : String)

/-- The characters that have a name. -/
def namedChars : List (String × Char) :=
  [("amp", '&'), ("lt", '<'), ("gt", '>'), ("quot", '"'), ("apos", '\'')]

/-- The character of a number in digits of a base. -/
def numberedChar? (base : Nat) (digits : List Char) : Option Char := do
  guard (Reader.isNumeralOf base digits)
  let n := Reader.digitsValue base digits
  guard (n.isValidChar && isChar (Char.ofNat n))
  return Char.ofNat n

/-- The reference that is written between its marks. -/
def Reference.ofBody? : List Char → Option Reference
  | '#' :: 'x' :: digits => (numberedChar? 16 digits).map .char
  | '#' :: digits => (numberedChar? 10 digits).map .char
  | body => do
    let (name, rest) ← baseName? body
    guard rest.isEmpty
    match namedChars.lookup name with
    | some c => return .char c
    | none => return .entity name

/-- A reference after its first mark, and what follows. -/
def reference? (cs : List Char) : Option (Reference × List Char) := do
  let (body, rest) ← Text.cut? ';' cs
  return (← Reference.ofBody? body, rest)

/-- The names of the entities that characters refer to, at most `fuel`. -/
def entityNames : Nat → List Char → List String
  | 0, _ => []
  | fuel + 1, cs =>
    match cs.dropWhile (· != '&') with
    | [] => []
    | _ :: rest =>
      match reference? rest with
      | some (.entity name, rest) => name :: entityNames fuel rest
      | some (.char _, rest) => entityNames fuel rest
      | none => entityNames fuel rest

end BuildFiles.Xml
