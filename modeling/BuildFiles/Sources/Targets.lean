import BuildFiles.Index
import BuildFiles.Manifest.Overrides
import BuildFiles.Rule.Inline
import BuildFiles.Rule.Target

/-!
# Targets of source files

A source file gets a target that compiles it or keeps it as a resource, and a test file one more
that runs its tests. The attributes of a target are layers over each other: what the file itself
needs, then the overrides of the manifest for all targets and for this one, then what the
declaration in the file sets.
-/

namespace BuildFiles

namespace Sources

/-- What the targets of source files are made from. -/
structure Context where
  index : Index
  overrides : Overrides
  settings : Settings
  /-- the folder of the manifest, which labels are taken from -/
  base : Path
  /-- the source paths as the manifest writes them -/
  sourcePaths : List Datum := []

/-- The file holds tests. -/
def isTestFile (fileName : String) : Bool := Text.contains fileName "_test.clj"

/-- The target with its labels in order, if they are all labels or need not be. -/
def finished (settings : Settings) (kind : TargetKind) (attributes : Attributes) :
    Except Fault Target := do
  let target : Target := ⟨kind, ← attributes.normalize true⟩
  if settings.validate then target.validate
  return target

namespace Context

/-- The first of the source paths that a path is below, or is. -/
def stripPrefix? (c : Context) (p : Path) : Except Fault (Option String) :=
  search c.sourcePaths
where
  /-- The first of the given source paths that the path is below. -/
  search : List Datum → Except Fault (Option String)
  | [] => .ok none
  | .str s :: rest => if p.isWithin (c.base / s) then .ok (some s) else search rest
  | _ => .error .shapeless

/-- The attribute of a prefix that is left out of the names of resources, if there is one. -/
def stripAttributes (strip : Option String) : Attributes :=
  match strip with
  | some s => if s.isEmpty then [] else [("resource_strip_prefix", .str s)]
  | none => []

/-- What is said about attributes that a declaration sets. -/
def sayInline (d : Declaration) (what : String) (attributes : Attributes) : Logged Unit :=
  if attributes.isEmpty then return
  else Logged.info "targets" s!"{d.name} {what}: {(Attributes.toDatum attributes).shown}"

/-- The overrides for the target of a label. -/
def overridesAt (c : Context) (label : String) : Attributes := (c.overrides.deps.get? label).getD []

/-- The target that runs the tests of a file. -/
def testTarget (c : Context) (fileName label : String) (d : Declaration) : Logged Target := do
  let inline ← Logged.of (Inline.test d)
  sayInline d "test extra" inline
  let name := fileName ++ ".test"
  let attributes := Attributes.merge [
    [("name", .str name), ("test_ns", .str d.name),
      ("deps", .texts [Label.ofSamePackage fileName])],
    c.overrides.clojureTest,
    c.overridesAt (label ++ ".test"),
    inline]
  Logged.of (finished c.settings .test attributes)

/-- What a file is to its target: compiled, or kept as a resource. -/
def fileAttributes (isCompiled : Bool) (fileName : String) (d : Declaration) : Attributes :=
  if isCompiled then [("srcs", .texts [fileName]), ("aot", .texts [d.name])]
  else [("resources", .texts [fileName]), ("aot", .texts [])]

/-- The targets of a file that starts with a declaration. -/
def targetsFor (c : Context) (p : Path) (d : Declaration) : Logged (List Target) := do
  let compiles := c.index.compiles d.name
  if d.asksForClass && !compiles then
    Logged.warning "targets" s!"{d.name} declares :gen-class but is excluded from AOT compilation"
  let label ← Logged.of (Label.ofFile c.base p)
  let inline ← Logged.of (Inline.library d)
  sayInline d "extra" inline
  let strip ← Logged.of (c.stripPrefix? p)
  let needed ← Logged.of ((c.index.labelTables c.settings.repositoryTag).dependencies d)
  let attributes := Attributes.merge [
    [("name", .str p.name), ("deps", .texts [c.settings.baseLabel])],
    fileAttributes (compiles && !isTestFile p.name) p.name d,
    stripAttributes strip,
    [("deps", .texts needed)],
    c.overrides.clojureLibrary,
    c.overridesAt label,
    inline]
  let library ← Logged.of (finished c.settings .sourceLibrary attributes)
  if isTestFile p.name then return [library, ← c.testTarget p.name label d] else return [library]

/-- The targets of a file; a file without a declaration, or that cannot be read, has none. -/
def targets (c : Context) (t : Tree) (p : Path) : Logged (List Target) :=
  match Source.declarationOf? t p .clj with
  | .ok (some d) => c.targetsFor p d
  | .ok none => do
    Logged.warning "targets" s!"Skipping {p} due to no ns declaration"
    return []
  | .error (.source place cause) => do
    Logged.warning "targets"
      s!"Skipping {p}: {((Fault.source place cause).message?).getD foreignCause}"
    return []
  | .error e => throw e

end Context

end Sources

end BuildFiles
