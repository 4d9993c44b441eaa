import BuildFiles.Xml.Markup
import BuildFiles.Xml.Element
import BuildFiles.Entries

/-!
# XML documents

Reading a document from its pieces, with the elements that are open on a stack. Every element closes
under the name that it was opened with, prefixes are bound to name spaces by the elements around
them, and a document is one element with nothing but blanks and declarations about it.
-/

namespace BuildFiles.Xml

/-- The name space of the prefix that is always bound. -/
def xmlSpace : String := "http://www.w3.org/XML/1998/namespace"

/-- The name space of the attributes that bind prefixes. -/
def bindingSpace : String := "http://www.w3.org/2000/xmlns/"

/-- The name spaces that prefixes are bound to. -/
abbrev Bindings := Entries String String

/-- Bind a prefix, which is empty for names without one. -/
def bind? (bindings : Bindings) (prefixName uri : String) : Option Bindings := do
  guard (!Text.contains uri "\x7d" && uri ≠ bindingSpace && prefixName ≠ "xmlns")
  guard ((prefixName = "xml") = (uri = xmlSpace))
  guard (!(uri.isEmpty && !prefixName.isEmpty))
  return bindings.insert prefixName uri

/-- Take in an attribute, which may bind a prefix. -/
def bindAttribute? (bindings : Bindings) (a : WrittenName × String) : Option Bindings :=
  if a.1 = ⟨"", "xmlns"⟩ then bind? bindings "" a.2
  else if a.1.space = "xmlns" then bind? bindings a.1.base a.2
  else some bindings

/-- The name that a name as written is. -/
def resolve? (bindings : Bindings) (n : WrittenName) : Option TagName :=
  match bindings.get? n.space with
  | some uri => some ⟨uri, n.base⟩
  | none => if n.space.isEmpty then some ⟨"", n.base⟩ else none

/-- An element that is open, with its children read so far, the last first. -/
structure Open where
  written : WrittenName
  name : TagName
  text : String
  children : List Element
  bindings : Bindings

/-- The element that closing makes. -/
def Open.element (o : Open) : Element := .node o.name o.text o.children.reverse

/-- The attribute binds a prefix that names may have. -/
def isBinding (n : WrittenName) : Bool := n.space = "xmlns"

/-- Open an element inside of the given bindings. No two of its attributes have one name. -/
def open? (bindings : Bindings) (n : WrittenName) (attributes : List (WrittenName × String)) :
    Option Open := do
  let bindings ← attributes.foldlM bindAttribute? bindings
  let written := (attributes.map Prod.fst).filter fun n => !n.space.isEmpty && !isBinding n
  let names ← written.mapM (resolve? bindings)
  guard (names.eraseDups.length = names.length)
  return ⟨n, ← resolve? bindings n, "", [], bindings⟩

/-- Take in text, which counts before the first child. -/
def Open.addText (o : Open) (s : String) : Open :=
  if o.children.isEmpty then { o with text := o.text ++ s } else o

/-- Read the pieces of a document, where `stack` is open; `root` is the element that is complete. -/
def run (root : Option Element) : List Open → List Piece → Option Element
  | [], [] => root
  | _ :: _, [] => none
  | [], .text s :: ps => if s.toList.all isBlank then run root [] ps else none
  | [], .quoted _ :: _ => none
  | o :: stack, .text s :: ps => run root (o.addText s :: stack) ps
  | o :: stack, .quoted s :: ps => run root (o.addText s :: stack) ps
  | [], .closing _ :: _ => none
  | [], .opening n attributes :: ps =>
    match root, open? [("xml", xmlSpace)] n attributes with
    | none, some o => run none [o] ps
    | _, _ => none
  | o :: stack, .opening n attributes :: ps =>
    match open? o.bindings n attributes with
    | some inner => run root (inner :: o :: stack) ps
    | none => none
  | o :: stack, .closing n :: ps =>
    if n ≠ o.written then none
    else match stack with
      | [] => run (some o.element) [] ps
      | outer :: stack =>
        run root ({ outer with children := o.element :: outer.children } :: stack) ps

/-- Read a document. -/
def parse? (s : String) : Option Element := (pieces? s).bind (run none [])

end BuildFiles.Xml
