import BuildFiles.Archive.Contents
import BuildFiles.Library.Claims
import BuildFiles.Library.Edges
import BuildFiles.Settings

/-!
# The index of a classpath

What generation asks about the classpath: which library an archive is of, which archive a class is
in, which libraries a library depends on, and what declares a namespace. The archives are gone
through in the order of the classpath, and what a later one declares replaces what an earlier one
did. The contents of the archives are part of the index, so that all that is generated from it
agrees on them.
-/

namespace BuildFiles

/-- The archive of a library with what it declares. -/
structure ScannedLibrary where
  archive : Path
  library : String
  contents : Archive.Contents

/-- The index of a classpath. -/
structure Index where
  /-- the libraries with archives, in the order of the classpath -/
  scanned : List ScannedLibrary := []
  /-- the libraries that each library directly depends on -/
  dependencies : Entries String (List String) := []
  /-- the labels of the namespaces in the project's sources -/
  sourceLabels : Entries String String := []
  /-- the namespaces that are not compiled ahead of time -/
  excluded : List String := []

namespace Index

/-- The libraries of the archives. -/
def archiveLibraries (i : Index) : Entries Path String :=
  .ofList (i.scanned.map fun s => (s.archive, s.library))

/-- The archives of the libraries. -/
def libraryArchives (i : Index) : Entries String Path :=
  .ofList (i.scanned.map fun s => (s.library, s.archive))

/-- The archives that the classes are in. -/
def classArchives (i : Index) : Entries String Path :=
  .ofList (i.scanned.flatMap fun s => s.contents.classes.map fun c => (c, s.archive))

/-- A namespace is compiled ahead of time. -/
def compiles (i : Index) (ns : String) : Bool := isCompiled i.excluded ns

/-- The name of the target that stands for a namespace of a library: its own if it is compiled, or
else that of the whole library. -/
def targetName (i : Index) (library ns : String) : String :=
  if i.compiles ns then Label.compiled library ns else Label.munge library

/-- The namespaces of the archives with their libraries. -/
def libraryNamespaces (i : Index) : List (String × String) :=
  i.scanned.flatMap fun s => s.contents.namespaces.map fun ns => (ns, s.library)

/-- The names of the targets that stand for the namespaces of the archives. -/
def libraryTargets (i : Index) : Entries String String :=
  .ofList (i.libraryNamespaces.map fun (ns, library) => (ns, i.targetName library ns))

/-- What decides labels in the sources of the project. -/
def labelTables (i : Index) (tag : String) : LabelTables where
  sourceLabels := i.sourceLabels
  libraryTargets := i.libraryTargets
  classArchives := i.classArchives
  archiveLibraries := i.archiveLibraries
  tag := tag

/-- What decides labels in libraries, which know of no sources. -/
def libraryLabelTables (i : Index) (tag : String) : LabelTables :=
  { i.labelTables tag with sourceLabels := [] }

/-! ## Building -/

/-- The labels of the files below a folder of sources by the namespaces that they declare. -/
def labelsIn (t : Tree) (base : Path) (entry : ClasspathEntry) :
    Logged (List (String × String)) := do
  let _ ← Logged.of (Label.relative base entry.path)
  (← Source.declarationsIn t entry.path .clj).mapM fun (p, d) =>
    return (d.name, ← Logged.of (Label.ofFile base p))

/-- The labels of the namespaces in the project's sources; the last file that declares one has
it. -/
def sourceLabelsOf (t : Tree) (base : Path) (b : Basis) :
    Logged (Entries String String) := do
  return .ofList (← b.sourceEntries.mapM (labelsIn t base)).flatten

/-- What is said about namespaces that several libraries declare. -/
def shadowNotes (owners : Entries String String) : List (String × String) → List Record
  | [] => []
  | (ns, library) :: rest =>
    let notes := shadowNotes (owners.insert ns library) rest
    match owners.get? ns with
    | some owner =>
      if owner = library then notes
      else ⟨.debug, "classpath", s!"Namespace {ns} in {library} shadows the copy in {owner}",
        false⟩ :: notes
    | none => notes

/-- What is said about the whole index. -/
def summary (i : Index) : Record :=
  ⟨.debug, "classpath",
    s!"Indexed {i.archiveLibraries.length} libraries, {i.classArchives.length} classes, "
      ++ s!"{i.sourceLabels.length} source namespaces, "
      ++ s!"{i.libraryTargets.length} library namespaces", false⟩

/-- The index of a basis over the contents of its archives. -/
def build (t : Tree) (base : Path) (named : List String) (b : Basis)
    (scanned : List ScannedLibrary) : Logged Index := do
  let sourceLabels ← sourceLabelsOf t base b
  let i : Index := {
    scanned := scanned
    dependencies := directDependencies b.trace
    sourceLabels := sourceLabels
    excluded := excludedFromCompilation named }
  (shadowNotes [] i.libraryNamespaces ++ [i.summary]).forM Logged.say
  return i

end Index

end BuildFiles
