import BuildFiles.Sources.Targets
import BuildFiles.Rule.BuildFile

/-!
# Targets of libraries

The one build file of the repository of libraries: for each library a target that imports its
archive, followed by one for each of its namespaces that is compiled, and at the end one that stands
for all libraries. Where an archive declares a namespace more than once, the first declaration is
used.
-/

namespace BuildFiles

namespace Library

/-- What the build file of the libraries is made from. -/
structure Context where
  index : Index
  overrides : Overrides := {}
  settings : Settings := {}
  /-- the folder that the build file is in, which archives are reached from -/
  folder : Path

namespace Context

/-- The libraries in the order of their labels. -/
def libraries (c : Context) : List ScannedLibrary :=
  c.index.scanned.mergeSort fun a b => decide (Label.munge a.library ≤ Label.munge b.library)

/-- The overrides for a target, by its name. -/
def overridesAt (c : Context) (name : String) : Attributes :=
  (c.overrides.deps.get? (Label.qualify c.settings.repositoryTag name)).getD []

/-- The labels of the libraries that a library directly depends on. -/
def dependencyLabels (c : Context) (library : String) : List String :=
  ((c.index.dependencies.get? library).getD []).map fun d => Label.ofSamePackage (Label.munge d)

/-- How an archive is reached from the folder of the build file. -/
def wayTo (c : Context) (archive : Path) : String :=
  ((archive.settled (.ofNames [])).reachedFrom (c.folder.settled (.ofNames []))).toText

/-- The attributes of the target that imports the archive of a library. -/
def importAttributes (c : Context) (archive : Path) (library : String) : Attributes :=
  let name := Label.munge library
  let deps := c.dependencyLabels library
  Attributes.merge [
    [("name", .str name), ("jars", .texts [c.wayTo archive])],
    if deps.isEmpty then [] else [("deps", .texts deps), ("runtime_deps", .texts deps)],
    c.overridesAt name]

/-- The target that imports the archive of a library. -/
def importTarget (c : Context) (archive : Path) (library : String) : Logged Target := do
  if archive.suffix ≠ ".jar" then throw (.archive (.notArchive archive))
  let extra := c.overridesAt (Label.munge library)
  if !extra.isEmpty then
    Logged.info "deps_build" s!"{library} extra-args: {(Attributes.toDatum extra).shown}"
  Logged.of (Sources.finished c.settings .archiveImport (c.importAttributes archive library))

/-- The target that compiles a namespace of a library. -/
def moduleTarget (c : Context) (library : String) (d : Declaration) : Except Fault Target := do
  let name := Label.compiled library d.name
  let needed ← (c.index.libraryLabelTables c.settings.repositoryTag).dependencies d
  Sources.finished c.settings .compiledModule <| Attributes.merge [
    [("name", .str name), ("aot", .texts [d.name]),
      ("deps", .texts [Label.qualify c.settings.repositoryTag (Label.munge library)]),
      ("runtime_deps", .texts [])],
    [("deps", .texts needed)],
    c.overridesAt name]

/-- The targets that compile the namespaces of a library. -/
def moduleTargets (c : Context) (s : ScannedLibrary) : Except Fault (List Target) :=
  ((firstDeclarations s.contents.declarations).filter fun d => c.index.compiles d.name).mapM
    (c.moduleTarget s.library)

/-- The target that stands for all libraries. -/
def allTarget (c : Context) : Target :=
  ⟨.aggregateLibrary, [("name", .str "__all"),
    ("deps", .texts (c.libraries.map fun s => Label.ofSamePackage (Label.munge s.library)))]⟩

/-- The targets of one library. -/
def targetsOf (c : Context) (s : ScannedLibrary) : Logged (List Target) := do
  let imported ← c.importTarget s.archive s.library
  return imported :: (← Logged.of (c.moduleTargets s))

/-- The targets of all libraries. -/
def targets (c : Context) : Logged (List Target) := do
  return (← c.libraries.mapM c.targetsOf).flatten ++ [c.allTarget]

/-- The text of the build file. -/
def text (c : Context) : Logged String := do
  let package ← Logged.of BuildFile.package
  let loads ← Logged.of (BuildFile.loads c.settings.extension ["clojure_library"])
  let rules ← Logged.of ((← c.targets).mapM Target.render)
  return BuildFile.sections (package :: loads :: rules) ++ "\n"

/-- Bring the build file up to date. -/
def generate (c : Context) (t : Tree) : Logged (Tree × Path) := do
  let output := c.folder.join (.ofNames [BuildFile.fileName])
  Logged.info "deps_build" s!"Writing to {output}"
  let text ← c.text
  match t.update output text with
  | .error e => throw (.file e)
  | .ok (t, _) => return (t, output)

end Context

end Library

end BuildFiles
