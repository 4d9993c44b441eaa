import BuildFiles.Xml.Doctype.Declarations

/-!
# Markup of XML

A text of XML is a sequence of tags and of text between them; comments and instructions say nothing.
`pieces?` splits a document, with references replaced by what they stand for, and has nothing for a
document that breaks the rules of markup. The text of an entity is split on its own, and what it
opens it also closes. Apart from that, whether tags match is no matter here.
-/

namespace BuildFiles.Xml

/-- A piece of a text of XML. -/
inductive Piece where
  | opening (name : WrittenName) (attributes : List (WrittenName × String))
  | closing (name : WrittenName)
  | text (s : String)
  /-- text that stands only inside of elements, as it was not written as it is -/
  | quoted (s : String)

/-! ## Tags -/

/-- An attribute with the characters between its quotes, and what follows. -/
def attribute? (cs : List Char) : Option ((WrittenName × List Char) × List Char) := do
  let (name, rest) ← name? cs
  match skipBlanks rest with
  | '=' :: rest =>
    match skipBlanks rest with
    | quote :: rest =>
      guard (quote = '"' || quote = '\'')
      let (value, rest) ← Text.cut? quote rest
      return ((name, value), rest)
    | [] => none
  | _ => none

/-- The attributes of a tag, at most `fuel`, and what follows. Blanks stand before each. -/
def attributes? : Nat → List Char → Option (List (WrittenName × List Char) × List Char)
  | 0, cs => some ([], skipBlanks cs)
  | fuel + 1, cs =>
    match cs, skipBlanks cs with
    | c :: _, d :: rest =>
      if isBlank c && isNameStart d then do
        let (a, rest) ← attribute? (d :: rest)
        let (as, rest) ← attributes? fuel rest
        guard (as.all fun b => b.1 ≠ a.1)
        return (a :: as, rest)
      else some ([], d :: rest)
    | _, rest => some ([], rest)

/-- An opening tag after its angle bracket, and what follows; an empty element is opened and
closed. -/
def opening? (d : Doctype) (cs : List Char) : Option (List Piece × List Char) := do
  let (name, rest) ← name? cs
  let (given, rest) ← attributes? rest.length rest
  let attributes ← d.attributes? name given
  match rest with
  | '>' :: rest => return ([.opening name attributes], rest)
  | '/' :: '>' :: rest => return ([.opening name attributes, .closing name], rest)
  | _ => none

/-- A closing tag after its slash, and what follows. -/
def closing? (cs : List Char) : Option (List Piece × List Char) := do
  let (name, rest) ← name? cs
  match skipBlanks rest with
  | '>' :: rest => return ([.closing name], rest)
  | _ => none

/-! ## Content -/

/-- Drop the beginning of a text. -/
def after? (start : String) (cs : List Char) : Option (List Char) :=
  if start.toList.isPrefixOf cs then some (cs.drop start.length) else none

/-- Characters that are taken as they are, and what follows. -/
def verbatim? (cs : List Char) : Option (List Piece × List Char) := do
  let (body, rest) ← upTo? "]]>".toList cs
  guard (body.all isChar)
  return ([.quoted (String.ofList body)], rest)

/-- What starts with an angle bracket, after it, and what follows. -/
def markup? (d : Doctype) (cs : List Char) : Option (List Piece × List Char) :=
  match after? "!--" cs, after? "![CDATA[" cs, cs with
  | some rest, _, _ => (afterComment? rest).map fun rest => ([], rest)
  | _, some rest, _ => verbatim? rest
  | _, _, '?' :: rest => (afterInstruction? rest).map fun rest => ([], rest)
  | _, _, '/' :: rest => closing? rest
  | _, _, rest => opening? d rest

/-- Whether characters go on without markup. -/
def isPlain (c : Char) : Bool := c != '<' && c != '&'

/-- The pieces of characters over at most `fuel` steps, after those in `soFar`, the last first,
where `entity?` is what a reference stands for. -/
def piecesAfter? (d : Doctype) (entity? : String → Option (List Piece)) :
    Nat → List Piece → List Char → Option (List Piece)
  | _, soFar, [] => some soFar.reverse
  | 0, _, _ => none
  | fuel + 1, soFar, '<' :: cs => do
    let (ps, rest) ← markup? d cs
    piecesAfter? d entity? fuel (ps.reverse ++ soFar) rest
  | fuel + 1, soFar, '&' :: cs => do
    match ← reference? cs with
    | (.char c, rest) =>
      piecesAfter? d entity? fuel (.quoted (String.singleton c) :: soFar) rest
    | (.entity name, rest) =>
      piecesAfter? d entity? fuel ((← entity? name).reverse ++ .quoted "" :: soFar) rest
  | fuel + 1, soFar, cs => do
    let plain := cs.takeWhile isPlain
    guard (plain.all isChar && !Text.hasRun "]]>".toList plain)
    piecesAfter? d entity? fuel (.text (String.ofList plain) :: soFar) (cs.dropWhile isPlain)

/-- What the pieces open they close, where `depth` elements are open. -/
def isBalanced : Nat → List Piece → Bool
  | depth, [] => depth = 0
  | depth, .opening _ _ :: ps => isBalanced (depth + 1) ps
  | depth, .closing _ :: ps => 0 < depth && isBalanced (depth - 1) ps
  | depth, _ :: ps => isBalanced depth ps

/-- The pieces of characters, in which references follow each other less often than `depth`. -/
def Doctype.pieces? (d : Doctype) : Nat → List Char → Option (List Piece)
  | 0, _ => none
  | depth + 1, cs =>
    let entity? (name : String) : Option (List Piece) := do
      match d.entities.get? name with
      | some (.text text) =>
        let ps ← d.pieces? depth text
        guard (isBalanced 0 ps)
        return ps
      | _ => none
    piecesAfter? d entity? cs.length [] cs

/-! ## Documents -/

/-- A value is one that a document may declare about itself under a name. -/
def isDeclared (name : String) (value : List Char) : Bool :=
  value.all (fun c => c.isAlphanum || c == '.' || c == '-' || c == '_')
    && (name ≠ "encoding" || value.head?.any Char.isAlpha)
    && (name ≠ "standalone" || value = "yes".toList || value = "no".toList)

/-- The version and more, as a document may declare them at its start. -/
def isDeclaration (attributes : List (WrittenName × List Char)) : Bool :=
  [["version"], ["version", "encoding"], ["version", "standalone"],
      ["version", "encoding", "standalone"]].contains (attributes.map fun a => a.1.base)
    && attributes.all fun a => a.1.space.isEmpty && isDeclared a.1.base a.2

/-- What the document declares about itself at its start, if it does, and what follows. -/
def declaration? (cs : List Char) : Option (Doctype × List Char) :=
  let none : Doctype × List Char := ({}, cs)
  match after? "<?xml" cs with
  | some rest =>
    if rest.head?.all (fun c => !isNameChar c && c != ':') then do
      let (body, after) ← upTo? "?>".toList rest
      let (attributes, left) ← attributes? body.length body
      guard (left.isEmpty && isDeclaration attributes)
      return ({ isStandalone := attributes.contains (⟨"", "standalone"⟩, "yes".toList) }, after)
    else some none
  | _ => some none

/-- The type of the document, if it is declared, and what follows. -/
def doctype? (d : Doctype) (cs : List Char) : Option (Doctype × List Char) :=
  if "<!".toList.isPrefixOf cs then d.declared.run cs else some (d, cs)

/-- Split a document into its pieces. -/
def pieces? (s : String) : Option (List Piece) := do
  let cs := match s.toList with
    | '\ufeff' :: rest => rest
    | cs => cs
  let (d, rest) ← declaration? cs
  let (d, rest) ← doctype? { d with size := s.utf8ByteSize } (afterRemarks rest.length rest)
  guard (d.isBounded rest)
  d.pieces? (d.depth + 1) rest

end BuildFiles.Xml
