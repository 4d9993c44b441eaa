import BuildFiles.Entries
import BuildFiles.Xml.Reference

/-!
# The type of a document

What a document declares about itself before its content: texts under the names of entities, and
what attributes elements have that do not give them. The text of an entity may refer to others, so
that a short document can stand for a very long one; `isBounded` tells those that do not. The value
of an attribute is what its characters stand for once all references are replaced.
-/

namespace BuildFiles.Xml

/-- What an entity is. -/
inductive Entity where
  | text (cs : List Char)
  /-- something that is not in the document -/
  | outside

/-- What is declared of an attribute. -/
structure AttributeRule where
  element : WrittenName
  name : WrittenName
  /-- the value is a list of words, so that blanks in it only divide them -/
  isWords : Bool
  /-- the value for elements that give none -/
  default : Option String

/-- The type of a document. -/
structure Doctype where
  /-- how many bytes the document has -/
  size : Nat := 0
  entities : Entries String Entity := []
  rules : List AttributeRule := []
  /-- there are declarations that are not in the document -/
  isPartial : Bool := false
  /-- the document says that it needs no declarations but its own -/
  isStandalone : Bool := false

namespace Doctype

/-! ## How much references stand for -/

/-- How many bytes the texts of entities have by name, with all that they refer to, over `depth`
references that follow each other. -/
def weights (d : Doctype) : Nat → Entries String Nat
  | 0 => []
  | depth + 1 =>
    let inner := weights d depth
    d.entities.map fun (name, e) =>
      match e with
      | .outside => (name, 0)
      | .text cs => (name, (entityNames cs.length cs).foldl
          (fun sum n => sum + (inner.get? n).getD 0) (String.ofList cs).utf8ByteSize)

/-- How deep references can follow each other that do not run in a circle. -/
def depth (d : Doctype) : Nat := d.entities.length + 1

/-- How many bytes the texts of the entities have that characters refer to, with all that they
refer to. -/
def weight (d : Doctype) (cs : List Char) : Nat :=
  match entityNames cs.length cs with
  | [] => 0
  | names =>
    let weights := d.weights d.depth
    names.foldl (fun sum n => sum + (weights.get? n).getD 0) 0

/-- How many bytes may stand for any number of others. -/
def freeWeight : Nat := 8 * 1024 * 1024

/-- How many bytes a byte of a document may stand for beyond that. -/
def growth : Nat := 100

/-- Characters do not stand for much more than the document has. -/
def isBounded (d : Doctype) (cs : List Char) : Bool :=
  let all := d.size + d.weight cs
  all < freeWeight || all ≤ growth * d.size

/-! ## Values of attributes -/

/-- What the characters of a value stand for, where `entity?` is what a reference stands for, after
the characters in `soFar`, the last first. -/
def valueAfter? (entity? : String → Option (List Char)) :
    Nat → List Char → List Char → Option (List Char)
  | _, soFar, [] => some soFar.reverse
  | 0, _, _ => none
  | fuel + 1, soFar, '&' :: cs => do
    match ← reference? cs with
    | (.char c, rest) => valueAfter? entity? fuel (c :: soFar) rest
    | (.entity name, rest) => valueAfter? entity? fuel ((← entity? name).reverse ++ soFar) rest
  | fuel + 1, soFar, c :: cs => do
    guard (c ≠ '<' && isChar c)
    valueAfter? entity? fuel ((if isBlank c then ' ' else c) :: soFar) cs

/-- What a reference in a value stands for: the value of the text of an entity, in which references
follow each other less often than `depth`. One that may be declared outside stands for nothing. -/
def entityValue? (d : Doctype) : Nat → String → Option (List Char)
  | 0, _ => none
  | depth + 1, name =>
    match d.entities.get? name with
    | some (.text cs) => valueAfter? (entityValue? d depth) cs.length [] cs
    | some .outside => none
    | none => if d.isPartial && !d.isStandalone then some [] else none

/-- The words of a value with one space between them. -/
def spaced (cs : List Char) : List Char :=
  List.intercalate [' '] ((cs.splitOn ' ').filter fun word => !word.isEmpty)

/-- The value of an attribute, from the characters between its quotes. -/
def value? (d : Doctype) (isWords : Bool) (cs : List Char) : Option String := do
  guard (d.isBounded cs)
  let value ← valueAfter? (d.entityValue? d.depth) cs.length [] cs
  return String.ofList (if isWords then spaced value else value)

/-! ## Attributes -/

/-- The rules for the attributes of an element. -/
def rulesOf (d : Doctype) (element : WrittenName) : List AttributeRule :=
  d.rules.filter fun r => r.element = element

/-- Take in a rule, unless there is one for the attribute. -/
def addRule (d : Doctype) (r : AttributeRule) : Doctype :=
  if d.rules.any fun s => s.element = r.element && s.name = r.name then d
  else { d with rules := d.rules ++ [r] }

/-- The attributes of an element: those that are given, with the characters between their quotes,
and those of which the type of the document has the value. -/
def attributes? (d : Doctype) (element : WrittenName) (given : List (WrittenName × List Char)) :
    Option (List (WrittenName × String)) := do
  let rules := d.rulesOf element
  let values ← given.mapM fun (name, cs) =>
    (d.value? (rules.any fun r => r.name = name && r.isWords) cs).map fun v => (name, v)
  let missing := rules.filter fun r => given.all fun a => a.1 ≠ r.name
  return values ++ missing.filterMap fun r => r.default.map fun v => (r.name, v)

end Doctype

end BuildFiles.Xml
