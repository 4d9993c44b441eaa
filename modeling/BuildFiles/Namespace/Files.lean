import BuildFiles.Namespace.Source
import BuildFiles.Tree
import BuildFiles.Logged

/-!
# Declarations in files

The declarations that head the source files of a tree. A folder is gone through from the top: the
files of a folder come before those of the folders in it, and each in the order of their names.
Files that cannot be read are passed over.
-/

namespace BuildFiles

namespace Source

/-- The declaration that a file starts with. -/
def declarationOf? (t : Tree) (p : Path) (platform : Platform) :
    Except Fault (Option Declaration) :=
  match t.readText p with
  | .ok text => declaration? text p.toText platform
  | .error .nullCharacter => .error (.file .nullCharacter)
  | .error _ => .error (.source p.toText .unreadable)

/-- A way to a file comes before another: by their folders, and in one folder by their names. -/
def walkLe (a b : Location) : Bool :=
  decide (a.dropLast < b.dropLast)
    || a.dropLast == b.dropLast && decide (Tree.lastName a ≤ Tree.lastName b)

/-- The files below a folder that the platform reads. -/
def files (t : Tree) (folder : Path) (platform : Platform) : List Path :=
  match t.locate folder with
  | .error _ => []
  | .ok l =>
    let read := (t.filesWalked (fun _ => true) folder l).filter fun way =>
      platform.reads (Tree.lastName way)
    (read.mergeSort walkLe).map fun way => folder.join (.ofNames way)

/-- The declaration of a file that is gone through, none for one that is passed over. -/
def indexed? (t : Tree) (platform : Platform) (p : Path) : Logged (Option (Path × Declaration)) :=
  match declarationOf? t p platform with
  | .ok d => return d.map fun d => (p, d)
  | .error e => do
    if isSkippable e then
      Logged.debug "namespaces" s!"Skipping {p} while indexing: {e.message?.getD foreignCause}"
      return none
    else throw e

/-- The files below a folder with their declarations, as far as they have any. -/
def declarationsIn (t : Tree) (folder : Path) (platform : Platform) :
    Logged (List (Path × Declaration)) := do
  let _ ← Logged.of ((t.hasFolder folder).mapError .file)
  return (← (files t folder platform).mapM (indexed? t platform)).filterMap id

end Source

end BuildFiles
