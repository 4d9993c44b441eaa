import BuildFiles.Text.Basic

/-!
# Paths

A path of a file system: where it starts, and the names it goes through. Parsing drops empty names
and `.`, keeps `..`, and keeps a beginning of exactly two slashes apart from that of one. Nothing
here looks at a file system; `Path.settled` removes `..` as a tree without links does.
-/

namespace BuildFiles

/-- Where a path starts. -/
inductive Anchor where
  | relative
  | root
  | doubleRoot
  deriving DecidableEq, Inhabited

/-- A path. -/
structure Path where
  anchor : Anchor
  names : List String
  deriving DecidableEq, Inhabited

/-- What a path that starts there begins with. -/
def Anchor.text : Anchor → String
  | .relative => ""
  | .root => "/"
  | .doubleRoot => "//"

namespace Path

/-- Where a text starts as a path. -/
def anchorOf : List Char → Anchor
  | '/' :: '/' :: '/' :: _ => .root
  | '/' :: '/' :: _ => .doubleRoot
  | '/' :: _ => .root
  | _ => .relative

/-- Read a path. -/
def parse (s : String) : Path :=
  ⟨anchorOf s.toList, (Text.segments '/' s).filter fun n => n != "" && n != "."⟩

/-- The relative path through the given names. -/
def ofNames (names : List String) : Path := ⟨.relative, names⟩

/-- The path as text; the relative path through no names is a dot. -/
def toText (p : Path) : String :=
  if p.anchor = .relative ∧ p.names = [] then "."
  else p.anchor.text ++ "/".intercalate p.names

instance : ToString Path := ⟨toText⟩

/-- The path does not start at a root. -/
def isRelative (p : Path) : Bool := p.anchor = .relative

/-- The last name, empty if there is none. -/
def name (p : Path) : String := p.names.getLast?.getD ""

/-- The path without its last name; a path through no names is its own parent. -/
def parent (p : Path) : Path := { p with names := p.names.dropLast }

/-- The end of a file name from its last dot, if something stands before and after the dot. -/
def suffixOf (cs : List Char) : List Char :=
  let ending := cs.reverse.takeWhile (· != '.')
  match cs.reverse.dropWhile (· != '.') with
  | '.' :: _ :: _ => if ending.isEmpty then [] else '.' :: ending.reverse
  | _ => []

/-- The end of the last name from its last dot, empty if there is none. -/
def suffix (p : Path) : String := String.ofList (suffixOf p.name.toList)

/-- The path that `q` is, taken from `p`: `q` itself when it starts at a root. -/
def join (p q : Path) : Path :=
  if q.isRelative then { p with names := p.names ++ q.names } else q

instance : HDiv Path Path Path := ⟨join⟩
instance : HDiv Path String Path := ⟨fun p s => p.join (parse s)⟩

/-- The path is `q`, or leads through it. -/
def isWithin (p q : Path) : Bool := p.anchor = q.anchor && q.names.isPrefixOf p.names

/-- The path taken from `base`, when it is within it. -/
def relativeTo? (p base : Path) : Option Path :=
  if p.isWithin base then some (ofNames (p.names.drop base.names.length)) else none

/-- Names with `..` carried out, on top of the reversed names before them. -/
def settle : List String → List String → List String
  | before, [] => before.reverse
  | before, n :: names =>
    if n = ".." then settle before.tail names else settle (n :: before) names

/-- The path from the root that `p` is when taken from `base`, with `..` carried out. -/
def settled (base p : Path) : Path := ⟨.root, settle [] (base.join p).names⟩

/-- How `p` is reached from `base`, both from the root and settled. -/
def reachedFrom (p base : Path) : Path :=
  let shared := ((base.names.zip p.names).takeWhile fun (a, b) => a == b).length
  ofNames (List.replicate (base.names.length - shared) ".." ++ p.names.drop shared)

/-- The beginning and the names: what paths are ordered and counted by. -/
def steps (p : Path) : List String :=
  if p.isRelative then p.names else p.anchor.text :: p.names

/-- The order of paths: by their steps, each compared by code points. -/
def le (p q : Path) : Bool := !decide (q.steps < p.steps)

/-- Paths in order. -/
def sorted (ps : List Path) : List Path := ps.mergeSort le

example : (parse "a//b/./c/").toText = "a/b/c" := by decide +kernel
example : (parse "//x").toText = "//x" := by decide +kernel
example : (parse "a.tar.gz").suffix = ".gz" := by decide +kernel
example : (settled (parse "/w") (parse "../x/./y")).toText = "/x/y" := by decide +kernel

end Path

end BuildFiles
