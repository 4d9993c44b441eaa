import BuildFiles.Xml.Doctype.Basic
import BuildFiles.Xml.Doctype.Token

/-!
# Declarations of XML

Reading the declaration of the type of a document, with the declarations in it: entities, attributes
of elements, what elements hold, and notations. All of them are read by their grammar; only entities
and attributes are kept. The first declaration of a name counts. Declarations after a reference to
others are not kept, as the others might have come first, unless the document says that it needs
none.
-/

namespace BuildFiles.Xml.Doctype

/-- Computations that read declarations. -/
abbrev Scan := StateT (List Char) Option

/-- The next token. -/
def token : Scan Token := Token.next?

/-- The next token is the mark. -/
def expect (c : Char) : Scan Unit := do
  match ← token with
  | .mark d => guard (c = d)
  | _ => failure

/-- The next token is a quoted text. -/
def quoted : Scan (List Char) := do
  match ← token with
  | .quoted cs => return cs
  | _ => failure

/-- The next token is a name. -/
def name : Scan WrittenName := do
  match ← token with
  | .name n => return n
  | _ => failure

/-- The next token is a name without a prefix. -/
def plainName : Scan String := do
  let n ← name
  guard n.space.isEmpty
  return n.base

/-! ## Places outside of the document -/

/-- A character of a public name. -/
def isPublicChar (c : Char) : Bool :=
  c.isAlphanum || "-'()+,./:=?;!*#@$_% \r\n".contains c

/-- The next token is a quoted public name. -/
def publicName : Scan Unit := do
  guard ((← quoted).all isPublicChar)

/-- Go on after the word for how something outside of the document is found. -/
def outside (word : String) : Scan Unit := do
  if word = "PUBLIC" then publicName else guard (word = "SYSTEM")
  let _ ← quoted

/-! ## Entities -/

/-- What the characters of the declared text of an entity are with the references to characters by
number replaced, after those in `soFar`, the last first. References to entities stay. -/
def replacement? : Nat → List Char → List Char → Option (List Char)
  | _, soFar, [] => some soFar.reverse
  | 0, _, _ => none
  | fuel + 1, soFar, '&' :: cs => do
    let (body, rest) ← Text.cut? ';' cs
    match body, ← Reference.ofBody? body with
    | '#' :: _, .char c => replacement? fuel (c :: soFar) rest
    | _, _ => replacement? fuel (';' :: body.reverse ++ '&' :: soFar) rest
  | fuel + 1, soFar, c :: cs => if c = '%' then none else replacement? fuel (c :: soFar) cs

/-- What stands for an entity: its text, or something outside. The text is looked at only if it
`counts`. -/
def entity (counts : Bool) (mayBeNotated : Bool) : Scan Entity := do
  match ← token with
  | .quoted cs =>
    expect '>'
    if counts then return .text (← replacement? cs.length [] cs) else return .outside
  | .name ⟨"", word⟩ =>
    outside word
    match ← token with
    | .mark '>' => return .outside
    | .name ⟨"", "NDATA"⟩ =>
      guard mayBeNotated
      let _ ← plainName
      expect '>'
      return .outside
    | _ => failure
  | _ => failure

/-- The declaration of an entity. -/
def entityDeclaration (counts : Bool) (d : Doctype) : Scan Doctype := do
  match ← token with
  | .mark '%' =>
    let _ ← plainName
    let _ ← entity counts false
    return d
  | .name ⟨"", n⟩ =>
    let e ← entity counts true
    return if counts then { d with entities := d.entities.insertNew n e } else d
  | _ => failure

/-! ## Attributes -/

/-- Go on with alternatives up to the end of their group, each of which `isAllowed`. -/
def alternatives (isAllowed : Token → Bool) : Nat → Scan Unit
  | 0 => failure
  | fuel + 1 => do
    guard (isAllowed (← token))
    match ← token with
    | .mark '|' => alternatives isAllowed fuel
    | .closing none => return
    | _ => failure

/-- A name without a prefix. -/
def isPlainName : Token → Bool
  | .name n => n.space.isEmpty
  | _ => false

/-- A name or a word. -/
def isWord : Token → Bool
  | .name _ => true
  | .word => true
  | _ => false

/-- The kinds of values that are words. -/
def wordKinds : List String :=
  ["ID", "IDREF", "IDREFS", "ENTITY", "ENTITIES", "NMTOKEN", "NMTOKENS"]

/-- The kind of the values of an attribute; the values are lists of words. -/
def isOfWords : Scan Bool := do
  match ← token with
  | .name ⟨"", kind⟩ =>
    if kind = "NOTATION" then
      expect '('
      alternatives isPlainName (← get).length
      return true
    else
      guard (kind = "CDATA" || wordKinds.contains kind)
      return kind ≠ "CDATA"
  | .mark '(' =>
    alternatives isWord (← get).length
    return true
  | _ => failure

/-- The characters of the value for elements that give none, if there is one. -/
def default? : Scan (Option (List Char)) := do
  match ← token with
  | .hashed "FIXED" => return some (← quoted)
  | .hashed word =>
    guard (word = "IMPLIED" || word = "REQUIRED")
    return none
  | .quoted cs => return some cs
  | _ => failure

/-- The rest of the declaration of the attributes of an element, at most `fuel`. -/
def attributeDeclarations (counts : Bool) (element : WrittenName) : Nat → Doctype → Scan Doctype
  | 0, _ => failure
  | fuel + 1, d => do
    match ← token with
    | .mark '>' => return d
    | .name n =>
      let isWords ← isOfWords
      let default ← default?
      if counts then
        let value ← default.mapM fun cs => (d.value? isWords cs : Option String)
        attributeDeclarations counts element fuel (d.addRule ⟨element, n, isWords, value⟩)
      else attributeDeclarations counts element fuel d
    | _ => failure

/-! ## Elements and notations -/

/-- The rest of what an element holds that holds text: names of elements. -/
def mixed : Nat → Scan Unit
  | 0 => failure
  | fuel + 1 => do
    match ← token with
    | .mark '|' =>
      let _ ← name
      mixed fuel
    | .closing (some '*') => expect '>'
    | _ => failure

/-- The rest of what an element holds, inside of groups with the marks between their parts, the
innermost first; `isOpen` before a part, and not after one. -/
def groups : Nat → List (Option Char) → Bool → Token → Scan Unit
  | 0, _, _, _ => failure
  | fuel + 1, marks, true, t => do
    match t with
    | .mark '(' => groups fuel (none :: marks) true (← token)
    | .name _ => groups fuel marks false (← token)
    | .counted => groups fuel marks false (← token)
    | _ => failure
  | fuel + 1, mark :: marks, false, t => do
    match t with
    | .closing _ => if marks.isEmpty then expect '>' else groups fuel marks false (← token)
    | .mark c =>
      guard ((c = ',' || c = '|') && mark.all (· = c))
      groups fuel (some c :: marks) true (← token)
    | _ => failure
  | _, [], false, _ => failure

/-- The declaration of what an element holds. -/
def elementDeclaration : Scan Unit := do
  let _ ← name
  match ← token with
  | .name ⟨"", word⟩ =>
    guard (word = "EMPTY" || word = "ANY")
    expect '>'
  | .mark '(' =>
    match ← token with
    | .hashed word =>
      guard (word = "PCDATA")
      let rest ← get
      match ← token with
      | .closing none => expect '>'
      | _ =>
        set rest
        mixed rest.length
    | t => groups ((← get).length + 1) [none] true t
  | _ => failure

/-- The declaration of a notation. -/
def notationDeclaration : Scan Unit := do
  let _ ← plainName
  let word ← plainName
  if word = "SYSTEM" then
    let _ ← quoted
    expect '>'
  else
    guard (word = "PUBLIC")
    publicName
    match ← token with
    | .mark '>' => return
    | .quoted _ => expect '>'
    | _ => failure

/-! ## The type of a document -/

/-- The declarations up to the end of the type of a document, at most `fuel`, of which entities and
attributes are kept if they `count`. -/
def declarations : Nat → Bool → Doctype → Scan Doctype
  | 0, _, _ => failure
  | fuel + 1, counts, d => do
    match ← token with
    | .remark => declarations fuel counts d
    | .elsewhere => declarations fuel (counts && d.isStandalone) { d with isPartial := true }
    | .mark ']' =>
      expect '>'
      return d
    | .declaration "ENTITY" => declarations fuel counts (← entityDeclaration counts d)
    | .declaration "ATTLIST" =>
      let element ← name
      declarations fuel counts (← attributeDeclarations counts element (← get).length d)
    | .declaration "ELEMENT" =>
      elementDeclaration
      declarations fuel counts d
    | .declaration "NOTATION" =>
      notationDeclaration
      declarations fuel counts d
    | _ => failure

/-- What follows the name in the type of a document, or where more about it is. -/
def afterName (d : Doctype) : Token → Scan Doctype
  | .mark '>' => return d
  | .mark '[' => do declarations (← get).length true d
  | _ => failure

/-- The type of a document, which adds to what is known about it. -/
def declared (d : Doctype) : Scan Doctype := do
  match ← token with
  | .declaration "DOCTYPE" =>
    let _ ← name
    match ← token with
    | .name ⟨"", word⟩ =>
      outside word
      afterName { d with isPartial := true } (← token)
    | t => afterName d t
  | _ => failure

end BuildFiles.Xml.Doctype
