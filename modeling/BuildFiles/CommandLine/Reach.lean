import BuildFiles.CommandLine.Execution

/-!
# What a run reaches

The places of the file system that a run of the command line looks at, as far as a tree of those
that are known already tells. `places` of a tree with all of its own places in it are the places of
the run.
-/

namespace BuildFiles.CommandLine

/-- A place of the file system: a file, or a folder with all that is below it. -/
inductive Place where
  | file (p : Path)
  | below (p : Path)
  deriving DecidableEq

/-- The libraries that the description of a library leads to: its parent and its dependencies. -/
def neighbours (r : Repository) (c : Coordinate) : List Coordinate :=
  let parent? : Except Fault (Option Coordinate) := do return (← r.description? c).bind Pom.parent?
  let deps := (((r.dependenciesOf c).run.run []).run []).1.1
  (parent?.toOption.bind id).toList
    ++ (deps.toOption.getD []).map fun d => .ofLibrary d.library d.version

/-- Libraries with all that their descriptions lead to, in at most `fuel` steps. -/
def closure (r : Repository) : Nat → List Coordinate → List Coordinate
  | 0, known => known
  | fuel + 1, known =>
    let more := ((known.flatMap (neighbours r)).filter fun c => !known.contains c).eraseDups
    if more.isEmpty then known else closure r fuel (known ++ more)

/-- The places of the libraries that a manifest leads to. -/
def libraryPlaces (r : Repository) (m : Manifest) (aliases : List String) : List Place :=
  let coordinates := (m.topLevel aliases).map fun (library, d) => (library, d.entries?.getD [])
  let locals := coordinates.filterMap fun (_, es) =>
    (Resolution.partOf? es "local/root").map fun d => Place.file (m.folder.settled (.parse d.text))
  let versions := coordinates.filterMap fun (library, es) =>
    (Resolution.partOf? es "mvn/version").map fun d => Coordinate.ofLibrary library d.text
  locals ++ (closure r (r.tree.size + versions.length) versions).flatMap fun c =>
    [.file (c.archive r.path), .file (c.pom r.path)]

/-- The places of a classpath. -/
def classpathPlaces (classpath : List ClasspathEntry) : List Place :=
  classpath.map fun e => if e.library.isSome then .file e.path else .below e.path

/-- The places that resolving a manifest looks at. -/
def resolutionPlaces (t : Tree) (m : Manifest) (aliases : List String) :
    Option Resolver → List Place
  | none => []
  | some (.basisFile file) =>
    let basis := (BasisFile.resolve t file m aliases).outcome.1
    .file file :: (basis.toOption.map fun b => classpathPlaces b.classpath).getD []
  | some (.repository path) => libraryPlaces ⟨t, path.settled (.ofNames [])⟩ m aliases

/-- The places that the preparation of a run looks at. -/
def projectPlaces (t : Tree) (o : BuildFiles.Options) : List Place :=
  let manifest := [.file o.manifest, .file (o.manifest / Manifest.fileName),
    .file (o.manifest / configFileName), .file (o.manifest.parent / configFileName)]
  match (Pipeline.load o).run.run { tree := t } with
  | (.error _, _) => manifest
  | (.ok (m, c), _) =>
    let aliases := Pipeline.aliases c o
    manifest ++ classpathPlaces ((m.sourceEntries aliases).toOption.getD [])
      ++ resolutionPlaces t m aliases (Pipeline.resolver? c o)

/-- The places that a command looks at. -/
def commandPlaces (e : Environment) (root : Path) (t : Tree) : Command → Except Fault (List Place)
  | .libraries project folder => do
    let folder ← e.within root folder
    return .file (folder / BuildFile.fileName) :: projectPlaces t (← options e root project)
  | .sources project | .install project => do return projectPlaces t (← options e root project)
  | .loader fileName _ _ folders _ _ =>
    .ok (fileName.toList.map (fun s => .file (root.join (.parse s)))
      ++ folders.map fun s => .below (root.join (.parse s)))

/-- The places that a run of the command line looks at. -/
def places (e : Environment) (args : List String) (t : Tree) : List Place :=
  let found : Except Fault (List Place) := do
    let .ok a := parse args | return []
    let root ← e.root a.root
    let log ← a.logFile.mapM e.expand
    return log.toList.map (fun p => .file (e.folder.join p)) ++ (← commandPlaces e root t a.command)
  (found.toOption.getD []).eraseDups

end BuildFiles.CommandLine
