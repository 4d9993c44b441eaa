import BuildFiles.Text.Basic

/-!
# Elements of XML

An element with its name, the text before its first child, and its children. A name lies in the
name space that its prefix is bound to, which is empty for none.
-/

namespace BuildFiles.Xml

/-- A name in a name space. -/
structure TagName where
  space : String
  base : String
  deriving DecidableEq, Inhabited

/-- An element. -/
inductive Element where
  | node (name : TagName) (text : String) (children : List Element)
  deriving Inhabited

namespace Element

/-- The name. -/
def name : Element → TagName
  | node n _ _ => n

/-- The text before the first child. -/
def text : Element → String
  | node _ s _ => s

/-- The children. -/
def children : Element → List Element
  | node _ _ es => es

/-- The children of a name in a name space, or in any. -/
def named (e : Element) (space : Option String) (base : String) : List Element :=
  e.children.filter fun c => c.name.base == base && space.all (· == c.name.space)

/-- The text of the first child of a name, without blanks about it. -/
def textOf? (e : Element) (space : Option String) (base : String) : Option String :=
  (e.named space base).head?.map fun c => Text.trim c.text

end Element

end BuildFiles.Xml
