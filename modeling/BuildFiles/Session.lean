import BuildFiles.Index
import BuildFiles.Resolution.Repository

/-!
# Sessions

What the steps of a run share: the tree that they read and write, the contents of the archives that
they have opened, and the records that they make. An archive is opened once; one that cannot be
used is opened again when it is asked for again.
-/

namespace BuildFiles

/-- The state of a run. -/
structure Session where
  tree : Tree
  archives : Entries Path Archive.Contents := []
  records : List Record := []

/-- Steps of a run. What one has done before it fails stays done. -/
abbrev Run := ExceptT Fault (StateM Session)

namespace Run

/-- A step that reads the tree. -/
def reading {α : Type} (f : Tree → Logged α) : Run α := fun s =>
  let (result, records) := (f s.tree).run.run s.records
  (result, { s with records := records })

/-- A step that only says what it does, or fails. -/
def logged {α : Type} (x : Logged α) : Run α := reading fun _ => x

/-- A step that changes the tree. -/
def writing {α : Type} (f : Tree → Logged (Tree × α)) : Run α := do
  let (t, a) ← reading f
  modifyThe Session fun s => { s with tree := t }
  return a

/-- A step that resolves against a repository with nothing known about it. -/
def resolving {α : Type} (path : Path) (f : Repository → Resolving α) : Run α :=
  reading fun t => ExceptT.mk do return (← (f ⟨t, path⟩).run.run []).1

/-- Open an archive, and keep what is in it. -/
def openArchive (p : Path) : Run Archive.Contents := do
  let contents ← reading fun t => Archive.Contents.ofFile t p
  modifyThe Session fun s => { s with archives := s.archives.insert p contents }
  return contents

/-- The contents of an archive. -/
def scan (p : Path) : Run Archive.Contents := do
  match (← getThe Session).archives.get? p with
  | some known => return known
  | none => openArchive p

/-- The archive of a library with what it declares. -/
def scanLibrary (claim : Path × String) : Run ScannedLibrary := do
  return { archive := claim.1, library := claim.2, contents := ← scan claim.1 }

/-- The index of a basis, whose paths are labelled from a folder. -/
def index (base : Path) (named : List String) (b : Basis) : Run Index := do
  let claimed ← logged (Logged.of b.archiveLibraries)
  let scanned ← claimed.mapM scanLibrary
  reading fun t => Index.build t base named b scanned

end Run

end BuildFiles
