import BuildFiles.Session
import BuildFiles.Configuration
import BuildFiles.Resolution.Selection
import BuildFiles.Resolution.BasisFile
import BuildFiles.Sources.Package
import BuildFiles.Library.Targets
import BuildFiles.Library.Install
import BuildFiles.Loader.Namespaces

/-!
# The pipeline

What the commands do: load the manifest and its configuration, resolve the libraries, index the
classpath, and generate. Options win over the configuration.
-/

namespace BuildFiles

/-- The options of a run; what is not set is left to the configuration. -/
structure Options where
  /-- the path of the manifest, or of its folder -/
  manifest : Path
  repository : Option Path := none
  basisFile : Option Path := none
  /-- inside, none for a tag that is asked for but not said -/
  repositoryTag : Option (Option String) := none
  aliases : Option (List String) := none
  validate : Option Bool := none

/-- All that is known before anything is generated. -/
structure Prepared where
  manifest : Manifest
  configuration : Configuration
  settings : Settings
  aliases : List String
  basis : Basis
  index : Index

/-- How libraries are resolved. -/
inductive Resolver where
  | basisFile (file : Path)
  | repository (path : Path)

/-- What the targets of source files are made from. -/
def Prepared.sources (p : Prepared) : Sources.Context where
  index := p.index
  overrides := p.manifest.overrides
  settings := p.settings
  base := p.manifest.folder
  sourcePaths := p.basis.paths

/-- What the build file of the libraries is made from, in a folder. -/
def Prepared.libraries (p : Prepared) (folder : Path) : Library.Context where
  index := p.index
  overrides := p.manifest.overrides
  settings := p.settings
  folder := folder

namespace Pipeline

/-- Load the manifest and its configuration. -/
def load (o : Options) : Run (Manifest × Configuration) := do
  let manifest ← Run.reading fun t => Logged.of (Manifest.ofFile t o.manifest)
  let configuration ← Run.reading fun t => Logged.of (Configuration.ofFile t manifest.folder)
  return (manifest, configuration)

/-- The settings of a run. -/
def settings (c : Configuration) (o : Options) : Except Fault Settings := do
  let s ← c.settings.checked
  match o.repositoryTag.getD (some s.repositoryTag) with
  | none => throw .tagless
  | some tag =>
    let s ← { s with repositoryTag := tag }.checked
    return { s with validate := o.validate.getD s.validate }

/-- The names of the aliases that are asked for. -/
def aliases (c : Configuration) (o : Options) : List String :=
  (o.aliases.getD c.aliases).map Manifest.aliasName

/-- How libraries are resolved, if something says it. -/
def resolver? (c : Configuration) (o : Options) : Option Resolver :=
  match o.basisFile <|> c.basisFile, o.repository <|> c.repository with
  | some file, _ => some (.basisFile file)
  | none, some path => some (.repository path)
  | none, none => none

/-- Resolve the libraries of a manifest. -/
def resolve (chosen : Option Resolver) (m : Manifest) (aliases : List String) : Run Basis := do
  match chosen with
  | none => throw (.resolution .nothingConfigured)
  | some (.basisFile file) => Run.reading fun t => BasisFile.resolve t file m aliases
  | some (.repository path) => do
    let settled ← Run.logged (Logged.of (path.resolved (.ofNames [])))
    Run.resolving settled fun r => Resolution.resolve r m aliases

/-- What is said about how libraries are resolved. -/
def sayResolver : Option Resolver → Logged Unit
  | some (.basisFile file) => Logged.debug "orchestrator" s!"Using resolved basis from {file}"
  | some (.repository path) =>
    Logged.debug "orchestrator" s!"Resolving against local repository {path}"
  | none => return

/-- Load, resolve and index. A resolver that is given is taken without a word. -/
def prepare (o : Options) (given : Option Resolver) : Run Prepared := do
  let (manifest, configuration) ← load o
  let settings ← Run.logged (Logged.of (settings configuration o))
  let aliases := aliases configuration o
  let shownAliases := if aliases.isEmpty then "none" else commaSeparated aliases
  Run.logged (Logged.info "orchestrator" s!"Loaded {manifest.path} (aliases: {shownAliases})")
  if given.isNone then Run.logged (sayResolver (resolver? configuration o))
  let basis ← resolve (given <|> resolver? configuration o) manifest aliases
  Run.logged <| Logged.debug "orchestrator"
    s!"Resolved {basis.sourceEntries.length} source paths and {basis.libraries.length} libraries"
  let index ← Run.index manifest.folder manifest.overrides.noAot basis
  return { manifest, configuration, settings, aliases, basis, index }

/-- Write the build file of the libraries to a folder. -/
def writeLibraries (o : Options) (folder : Path) : Run Path := do
  let p ← prepare o none
  let settled ← Run.logged (Logged.of (folder.resolved (.ofNames [])))
  let output ← Run.writing (Prepared.libraries p settled).generate
  Run.logged <| Logged.info "orchestrator"
    s!"Generated {p.index.archiveLibraries.length} library targets"
  return output

/-- Write a build file to every folder of sources; gives their paths in the order of writing. -/
def writeSources (o : Options) : Run (List Path) := do
  let p ← prepare o none
  let ignored ← Run.logged <| Logged.of <|
    Sources.ignoredPaths p.manifest.folder p.manifest.overrides.ignore
  let entries := p.basis.sourceEntries.map (·.path)
  Run.logged ((Sources.ignoredNotes entries ignored).forM Logged.say)
  let roots := Sources.roots entries ignored
  let folders ← Run.reading fun t => Logged.of (Sources.foldersFound t roots ignored)
  let layout : Sources.Layout := { Prepared.sources p with folders, ignored }
  let written ← folders.mapM fun folder => Run.writing fun t => layout.generate t folder
  Run.logged <| Logged.info "srcs"
    s!"Generated {written.length} BUILD files under {roots.length} source paths"
  return written

/-- What is said before a loader is written. -/
def sayLoader (shownName : String) : Run Unit :=
  Run.logged (Logged.info "orchestrator" s!"Generating namespace loader {shownName}")

/-- Write a loader. -/
def writeLoader (r : Loader.Request) : Run Path := do
  sayLoader r.ns
  Run.writing r.generate

/-- The text of the block that installs the libraries. -/
def installText (deps : Entries String Datum) (repositories : List Datum) : Logged String := do
  let results ← Logged.of (Install.artifacts deps)
  (Install.warnings results).forM Logged.say
  Logged.of (Install.call results repositories).render

/-- The block that installs the libraries that a manifest names. -/
def install (o : Options) : Run String := do
  let (manifest, configuration) ← load o
  let aliases := aliases configuration o
  Run.logged ((manifest.undefinedNotes aliases).forM Logged.say)
  Run.logged (installText (manifest.topLevel aliases) (Resolution.repositoriesOf manifest))

end Pipeline

end BuildFiles
