import BuildFiles.Tree
import BuildFiles.Logged

/-!
# Folders of sources

The folders that get a build file: those below a source root that hold a file or lead to one, as
far as they are not ignored and their paths are not too long to be walked, and the roots themselves.
They are listed from the deepest up, so that each comes before the folders that it is in.
-/

namespace BuildFiles

/-- The path is one of those to ignore, or leads through one. -/
def Path.isIgnored (ignored : List Path) (p : Path) : Bool := ignored.any p.isWithin

namespace Sources

/-- The paths to ignore, as written from a folder. -/
def ignoredPaths (base : Path) (patterns : List String) : Except Fault (List Path) :=
  (patterns.mapM fun s => base.resolved (.parse s)).map List.eraseDups

/-- The roots to go through, each once, in the order of the classpath. -/
def roots (entries ignored : List Path) : List Path :=
  (entries.filter fun p => !p.isIgnored ignored).eraseDups

/-- What is said about the source paths that are ignored. -/
def ignoredNotes (entries ignored : List Path) : List Record :=
  (entries.filter (·.isIgnored ignored)).map fun p =>
    ⟨.info, "srcs", s!"Ignoring source path {p}", false⟩

/-- The folders of one root, none if there is no folder. -/
def foldersOf (t : Tree) (ignored : List Path) (root : Path) : List Path :=
  match t.locate root with
  | .error _ => []
  | .ok l =>
    if !t.isFolder l || root.isIgnored ignored then [] else
      let holders := (t.filesWalked (fun p => !p.isIgnored ignored) root l).map List.dropLast
      root :: (holders.flatMap Tree.stops).map fun way => root.join (.ofNames way)

/-- A folder is listed before another: the deeper first, of equal depth by their texts. -/
def deeperFirst (a b : Path) : Bool :=
  decide (b.steps.length < a.steps.length)
    || a.steps.length == b.steps.length && decide (a.toText ≤ b.toText)

/-- The folders that get a build file, from the deepest up. -/
def folders (t : Tree) (roots ignored : List Path) : List Path :=
  ((roots.flatMap (foldersOf t ignored)).eraseDups).mergeSort deeperFirst

/-- The folders that get a build file, if all roots are some that can be looked for. -/
def foldersFound (t : Tree) (roots ignored : List Path) : Except Fault (List Path) := do
  roots.forM fun root => do
    let _ ← (t.hasFolder root).mapError .file
  return folders t roots ignored

/-- The folders of a list that lie directly in a folder, in order. -/
def children (folders : List Path) (folder : Path) : List Path :=
  Path.sorted (folders.filter fun p => p.parent == folder)

end Sources

end BuildFiles
