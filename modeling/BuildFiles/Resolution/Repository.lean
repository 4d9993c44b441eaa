import BuildFiles.Maven.Pom
import BuildFiles.Xml.Document
import BuildFiles.Tree

/-!
# Local repositories

A folder of archives and descriptions of libraries in the standard layout. A description is read
once, with the parents that it inherits from, and so is the fact that there is none; what is known
is kept in a `PomCache`.
-/

namespace BuildFiles

/-- A local repository in a tree of files. -/
structure Repository where
  tree : Tree
  path : Path

/-- The descriptions that are known; none for a library without one. -/
abbrev PomCache := Entries Coordinate (Option Pom)

/-- Computations that read descriptions. What they know when they fail stays known. -/
abbrev Resolving := ExceptT Fault (StateT PomCache (StateM (List Record)))

namespace Resolving

/-- A computation that reads no descriptions. -/
def lift {α : Type} (x : Logged α) : Resolving α := ExceptT.mk (StateT.lift x.run)

/-- A computation that goes on side by side with others, and whose records say so. -/
def aside {α : Type} (x : Resolving α) : Resolving α := fun cache before =>
  let (result, made) := (x.run.run cache).run []
  (result, before ++ made.map fun r => { r with aside := true })

end Resolving

namespace Repository

/-- The archive of a library, which is to be there. -/
def archive (r : Repository) (library version : String) : Except Fault Path := do
  let p := (Coordinate.ofLibrary library version).archive r.path
  if ← (r.tree.has p).mapError .file then return p
  else throw (.resolution (.archiveMissing library version r.path p))

/-- The element that describes a library, if there is a description. -/
def description? (r : Repository) (c : Coordinate) : Except Fault (Option Xml.Element) := do
  let p := c.pom r.path
  if ← (r.tree.has p).mapError .file then
    match Xml.parse? (← (r.tree.readText p).mapError .file) with
    | some root => return some root
    | none => throw (.resolution (.pomMalformed p))
  else return none

/-- The description of a library as its file says, on top of that of the parent that it names. -/
def readPom (r : Repository) (parentPom : Coordinate → Resolving (Option Pom)) (c : Coordinate) :
    Resolving (Option Pom) := do
  match ← Resolving.lift (Logged.of (r.description? c)) with
  | none => return none
  | some root =>
    match Pom.parent? root with
    | none => return some (Pom.ofElement c {} root)
    | some parent => return some (Pom.ofElement c ((← parentPom parent).getD {}) root)

/-- The description of a library, over at most `fuel` descriptions of which each is the parent of
the one before. -/
def pomWithin (r : Repository) : Nat → Coordinate → Resolving (Option Pom)
  | 0, _ => throw .endlessParents
  | fuel + 1, c => do
    match (← getThe PomCache).get? c with
    | some known => return known
    | none =>
      let pom ← r.readPom (pomWithin r fuel) c
      modifyThe PomCache (·.insert c pom)
      return pom

/-- The description of a library. A chain of parents that ends visits each file once at most. -/
def pom? (r : Repository) (c : Coordinate) : Resolving (Option Pom) :=
  r.pomWithin (r.tree.files.length + 1) c

/-- The dependencies of a library that count; a library without a description has none. -/
def dependenciesOf (r : Repository) (c : Coordinate) : Resolving (List Dependency) := do
  match ← r.pom? c with
  | some pom => Resolving.lift (pom.followed c)
  | none =>
    Resolving.lift <| Logged.debug "resolver"
      s!"No POM for {c.library} {c.version}, assuming no dependencies"
    return []

end Repository

end BuildFiles
