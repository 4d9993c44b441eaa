import BuildFiles.Resolution.Repository
import BuildFiles.Manifest.Aliases

/-!
# Selection of libraries

Resolution of a manifest against a local repository, level by level: first the libraries of the
manifest, then those that they depend on, and so on. The version that a library is first met with is
taken, and the coordinate of the manifest wins over any other. Libraries that are excluded on the
way to a dependency are not taken in by that way. The trace holds what was decided about each
dependency that was met.
-/

namespace BuildFiles

/-- A library that is taken in. -/
structure Selection where
  library : String
  /-- the libraries on the way to it -/
  path : List String
  /-- none for an archive that is not of the repository -/
  version : Option String
  archive : Path
  /-- the libraries that are not taken in by way of it -/
  exclusions : List String

/-- The way to the dependencies of a library. -/
def Selection.way (s : Selection) : List String := s.path ++ [s.library]

namespace Resolution

/-! ## The libraries of the manifest -/

/-- The libraries that a coordinate excludes. -/
def exclusionsOf (coordinate : Entries Datum Datum) : Except Fault (List String) :=
  match coordinate.get? (.str "exclusions") with
  | none => .ok []
  | some d =>
    match d.members? with
    | some xs => do
      return (← xs.mapM fun x => return Label.canonicalLibrary (← x.written)).eraseDups
    | none => .error .shapeless

/-- The value at a key of a coordinate; null is none. -/
def partOf? (coordinate : Entries Datum Datum) (key : String) : Option Datum :=
  match coordinate.get? (.str key) with
  | none | some .nil => none
  | some d => some d

/-- The library of the manifest with its coordinate. -/
def topSelection (r : Repository) (m : Manifest) (library : String) (d : Datum) :
    Except Fault Selection := do
  let coordinate := d.entries?.getD []
  let exclusions ← exclusionsOf coordinate
  match partOf? coordinate "local/root", partOf? coordinate "mvn/version" with
  | some root, _ =>
    let archive ← m.folder.resolved (.parse (← root.written))
    if ← (r.tree.has archive).mapError .file then
      return ⟨library, [], none, archive, exclusions⟩
    else .error (.resolution (.localRootMissing library archive))
  | none, none => .error (.showing d (.resolution (.unsupportedCoordinate library d)))
  | none, some version =>
    let version ← version.written
    return ⟨library, [], some version, ← r.archive library version, exclusions⟩

/-! ## Levels -/

/-- How far resolution is. -/
structure Progress where
  selected : Entries String Selection
  trace : List TraceRecord
  /-- the libraries that were taken in on this level -/
  next : List Selection

/-- Write a record about a dependency of a library. -/
def Progress.record (s : Progress) (parent : Selection) (d : Dependency) (reason : String) :
    Progress :=
  { s with trace := s.trace ++ [⟨parent.way, d.library, reason⟩] }

/-- Take in a library. -/
def Progress.select (s : Progress) (new : Selection) : Progress :=
  { s with selected := s.selected.insert new.library new, next := s.next ++ [new] }

/-- What is said about a version that is not taken. -/
def conflictNote (parent : Selection) (d : Dependency) (existing : Selection) : Record :=
  let kept := match existing.version with
    | some v => v
    | none => "None"
  ⟨.debug, "resolver", s!"{parent.library} wants {d.library} {d.version}, keeping {kept}", false⟩

/-- Meet a dependency of a library. -/
def meet (r : Repository) (top : List String) (parent : Selection) (s : Progress)
    (d : Dependency) : Logged Progress :=
  if parent.exclusions.contains d.library then return s.record parent d "excluded"
  else if top.contains d.library then return s.record parent d "use-top"
  else match s.selected.get? d.library with
    | some existing =>
      if existing.version = some d.version then return s.record parent d "same-version"
      else do
        Logged.say (conflictNote parent d existing)
        return s.record parent d "version-conflict"
    | none => do
      let archive ← Logged.of (r.archive d.library d.version)
      let new : Selection := {
        library := d.library
        path := parent.way
        version := some d.version
        archive := archive
        exclusions := (parent.exclusions ++ d.exclusions).eraseDups }
      return (s.select new).record parent d "new-dep"

/-- Meet all dependencies of a library. -/
def meetAll (r : Repository) (top : List String) (s : Progress)
    (found : Selection × List Dependency) : Logged Progress :=
  found.2.foldlM (meet r top found.1) s

/-- The dependencies of a library that is taken in; an archive that is not of the repository has
none. -/
def dependenciesOf (r : Repository) (s : Selection) :
    Resolving (Option (Selection × List Dependency)) := do
  match s.version with
  | none => return none
  | some v => return some (s, ← r.dependenciesOf (.ofLibrary s.library v))

/-- Go through the dependencies of all libraries of a level. -/
def level (r : Repository) (top : List String) (s : Progress) : Resolving Progress := do
  let found ← Resolving.aside (s.next.mapM (dependenciesOf r))
  Resolving.lift ((found.filterMap id).foldlM (meetAll r top) { s with next := [] })

/-- Go through level after level, at most `fuel`, until nothing new is taken in. -/
def levels (r : Repository) (top : List String) : Nat → Progress → Resolving Progress
  | 0, s => if s.next.isEmpty then return s else throw (.resolution .endless)
  | fuel + 1, s => do
    if s.next.isEmpty then return s
    else levels r top fuel (← level r top s)

/-- How far resolution is with the libraries of the manifest. -/
def start (selections : List Selection) : Progress where
  selected := selections.map fun s => (s.library, s)
  trace := selections.map fun s => ⟨[], s.library, "new-top-dep"⟩
  next := selections

/-- The archives of the libraries, in the order of their names. -/
def libraryEntries (selected : Entries String Selection) : List ClasspathEntry :=
  (selected.values.mergeSort fun a b => decide (a.library ≤ b.library)).map fun s =>
    { path := s.archive, library := some s.library }

/-- The repositories of a manifest. -/
def repositoriesOf (m : Manifest) : List Datum := m.repositories.values.map .str

/-- The selections of the libraries of the manifest, in the order of their names. -/
def topSelections (r : Repository) (m : Manifest) (top : Entries String Datum) :
    Except Fault (List Selection) :=
  (Text.sorted top.keys).mapM fun library =>
    topSelection r m library ((top.get? library).getD .nil)

/-- Resolve a manifest under aliases through at most `fuel` levels: how far that is, and the basis
that it comes to. -/
def within (r : Repository) (m : Manifest) (aliases : List String) (fuel : Nat) :
    Resolving (Progress × Basis) := do
  let sources ← Resolving.lift (Logged.of (m.sourceEntries aliases))
  Resolving.lift ((m.undefinedNotes aliases).forM Logged.say)
  let top := m.topLevel aliases
  let selections ← Resolving.lift (Logged.of (topSelections r m top))
  let s ← levels r top.keys fuel (start selections)
  let libraries := libraryEntries s.selected
  Resolving.lift (Logged.info "resolver" s!"Resolved {libraries.length} libraries from {r.path}")
  return (s, {
    classpath := sources ++ libraries
    trace := s.trace
    paths := (m.keyedPaths aliases).keys.map .str
    deps := top
    repositories := repositoriesOf m })

/-- Resolve a manifest under aliases. Where libraries have one name each, a level takes in a library
that no other level did, and a tree holds no more of them than its size. -/
def resolve (r : Repository) (m : Manifest) (aliases : List String) : Resolving Basis := do
  return (← within r m aliases ((m.topLevel aliases).length + r.tree.size)).2

end Resolution

end BuildFiles
