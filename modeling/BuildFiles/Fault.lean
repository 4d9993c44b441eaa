import BuildFiles.Reader.Fault
import BuildFiles.Datum.Display
import BuildFiles.Yaml.Damage

/-!
# Faults

Everything that a run can fail with, each as its cause. `Fault.message` is the wording; a cause that
comes from a data format or the file system has no wording of its own here and is written as
`<cause>`. `Fault.isReported` tells the faults that the command line reports in its own words from
those that end it.
-/

namespace BuildFiles

/-- A fault of the file system, or of text that a file holds. -/
inductive FileFault where
  | missing
  | isFolder
  | notFolder
  | notText
  /-- a file is where a folder is to be made -/
  | taken
  /-- a path holds the null character, which no name can -/
  | nullCharacter
  /-- a name, or a whole path, is longer than a file system takes -/
  | tooLong
  /-- a file is to be put where a path that ends in `..` leads -/
  | nameless
  deriving DecidableEq

/-- Why the declaration that heads a file cannot be read. -/
inductive DeclarationCause where
  | malformed (cause : Malformation) (line : Nat)
  | notDeclaration
  | nameless

/-- Why a source file cannot be read. -/
inductive SourceCause where
  | malformed (cause : Malformation) (line : Nat)
  | unreadable

/-- Why an archive cannot be used. -/
inductive ArchiveCause where
  | notArchive (archive : Path)
  | unreadable (archive : Path)
  | corruptEntry (source : String)

/-- Why libraries cannot be resolved. -/
inductive ResolutionCause where
  | basisMissing (file : Path)
  | basisMalformed (file : Path)
  | basisNotObject (file : Path)
  | badEntry (file : Path) (entry : Datum)
  | badRecord (file : Path) (record : Datum)
  | localRootMissing (library : String) (archive : Path)
  | unsupportedCoordinate (library : String) (coordinate : Datum)
  | archiveMissing (library version : String) (repository archive : Path)
  | pomMalformed (pom : Path)
  | versionMissing (library version dependency : String)
  | archiveClaimedTwice (archive : Path) (first second : String)
  | libraryTwice (library : String) (first second : Path)
  | nothingConfigured
  | endless

/-- The kinds of disagreement of an override block with its schema. -/
inductive SchemaViolation where
  | unknownField
  | notMap
  | notList
  | notText
  | badValue
  | badKey
  deriving DecidableEq

/-- What is wrong with the manifest or the settings. -/
inductive SettingsCause where
  | manifestMalformed (file : Path) (cause : Malformation) (line : Nat)
  | manifestNotMap (fileName : String)
  | notTexts (key : String)
  | depsNotMap
  | dependencyNotSymbol (name : Datum)
  | coordinateNotMap (library : String)
  | aliasesNotMap
  | badAlias (name : Datum)
  | overridesNotMap
  | overridesInvalid (violations : List (List String × SchemaViolation))
  | badRepositoryTag (tag : String)
  | outside (path base : Path)
  | badLabel (target field : String) (label : Datum)

/-- What is wrong with the configuration file. -/
inductive ConfigCause where
  | malformed
  | notMapping

/-- A failed run, by its cause. -/
inductive Fault where
  | reading (fault : ReadFault)
  | declaration (source : String) (cause : DeclarationCause)
  | source (source : String) (cause : SourceCause)
  | archive (cause : ArchiveCause)
  | resolution (cause : ResolutionCause)
  | settings (cause : SettingsCause)
  | config (cause : ConfigCause)
  /-- a key that a table lacks, as shown, with the keys that it has -/
  | missingKey (key : String) (available : List String)
  | manifestMissing (file : Path)
  /-- a datum that no expression of a build file stands for -/
  | unwritable (d : Datum)
  /-- an integer with more decimal digits than integers are written with -/
  | longInteger
  | emptyLoaderName
  | file (fault : FileFault)
  /-- a target without the attribute that its name is -/
  | nameless
  /-- a datum that has no items or entries where they are needed -/
  | shapeless
  /-- a datum that lacks an operation which its use needs -/
  | unsuited
  /-- a chain of parent descriptions that never ends -/
  | endlessParents
  /-- a home directory that is not known -/
  | homeless
  /-- an option that is to be a path is written without one -/
  | pathless
  /-- the option for the tag of the repository of libraries is written without one -/
  | tagless
  /-- an entry of an archive whose compressed form is none -/
  | garbled
  /-- an entry of an archive without a name -/
  | unnamedEntry
  /-- an entry of an archive that is said to be where no offset leads -/
  | unplacedEntry
  /-- a scalar of the configuration file that stands for no value of its kind -/
  | scalar (cause : Yaml.ScalarCause)

/-- The texts with commas between them. -/
def commaSeparated (ss : List String) : String := ", ".intercalate ss

/-- The wording of a cause that another format or the system gives. -/
def foreignCause : String := "<cause>"

/-- The wording of a faulty declaration. -/
def DeclarationCause.message : DeclarationCause → String
  | .malformed cause line => malformedMessage cause line
  | .notDeclaration => "first form is not an ns declaration"
  | .nameless => "ns declaration has no name"

/-- The wording of an unreadable source file. -/
def SourceCause.message : SourceCause → String
  | .malformed cause line => malformedMessage cause line
  | .unreadable => "unreadable source file: " ++ foreignCause

/-- The wording of an unusable archive. -/
def ArchiveCause.message : ArchiveCause → String
  | .notArchive p => s!"only .jar archives are supported: {p}"
  | .unreadable p => s!"cannot read archive {p}: {foreignCause}"
  | .corruptEntry source => s!"corrupt entry {source}: {foreignCause}"

/-- The wording of a failed resolution. -/
def ResolutionCause.message : ResolutionCause → String
  | .basisMissing f => s!"basis file not found: {f}"
  | .basisMalformed f => s!"invalid basis file {f}: {foreignCause}"
  | .basisNotObject f => s!"basis file {f} must contain an object"
  | .badEntry f d => s!"malformed classpath entry in {f}: {d.shown}"
  | .badRecord f d => s!"malformed trace record in {f}: {d.shown}"
  | .localRootMissing lib p => s!"{lib}: local root {p} does not exist"
  | .unsupportedCoordinate lib d => s!"{lib}: unsupported coordinate {d.shown}"
  | .archiveMissing lib version repository p =>
    s!"{lib} {version} not found in {repository} (expected {p})"
  | .pomMalformed p => s!"cannot parse {p}: {foreignCause}"
  | .versionMissing lib version dependency =>
    s!"{lib} {version}: no version for dependency {dependency}"
  | .archiveClaimedTwice p a b => s!"archive {p} is claimed by both {a} and {b}"
  | .libraryTwice lib a b => s!"library {lib} resolved to two archives: {a}, {b}"
  | .nothingConfigured =>
    "no repository directory or basis file configured; pass --repository-dir or --basis"
  | .endless => "resolution does not end"

/-- The wording of wrong settings. -/
def SettingsCause.message : SettingsCause → String
  | .manifestMalformed f cause line => s!"Failed to parse {f}: {malformedMessage cause line}"
  | .manifestNotMap name => s!"{name} must contain a map at the root"
  | .notTexts key => s!":{key} must be a vector of strings"
  | .depsNotMap => ":deps must be a map of library to coordinate"
  | .dependencyNotSymbol d => s!"dependency name must be a symbol, got {d.shown}"
  | .coordinateNotMap lib => s!"coordinate for {lib} must be a map"
  | .aliasesNotMap => ":aliases must be a map"
  | .badAlias d => s!"alias {d.shown} must be a keyword mapped to a map"
  | .overridesNotMap => ":bazel must be a map"
  | .overridesInvalid _ => s!"invalid :bazel override block: {foreignCause}"
  | .badRepositoryTag tag => s!"deps repo tag must start with @, got {Text.quoted tag}"
  | .outside p base =>
    s!"{p} is outside {base}; source paths must live under the deps.edn directory"
  | .badLabel target field d =>
    s!"target {Text.quoted target} has malformed {field} entry {d.shown}"

/-- The name of the configuration file. -/
def configFileName : String := ".genbuild.yml"

/-- The wording of a faulty configuration file. -/
def ConfigCause.message : ConfigCause → String
  | .malformed => s!"Failed to parse {configFileName}: {foreignCause}"
  | .notMapping => s!"{configFileName} must contain a mapping at the root"

namespace Fault

/-- The wording of a fault, for those that have one. -/
def message? : Fault → Option String
  | .reading (.malformed cause line) => some (malformedMessage cause line)
  | .reading _ => none
  | .declaration s cause => some s!"malformed ns declaration in {s}: {cause.message}"
  | .source s cause => some s!"{s}: {cause.message}"
  | .archive cause => some cause.message
  | .resolution cause => some cause.message
  | .settings cause => some cause.message
  | .config cause => some cause.message
  | .missingKey key available =>
    let known := commaSeparated available
    let shownKeys := if known.isEmpty then "none" else known
    some s!"couldn't find key {key} (available: {shownKeys})"
  | .manifestMissing f => some s!"deps.edn not found: {f}"
  | .unwritable d => some s!"don't know how to emit {d.kindName}: {d.shown}"
  | .emptyLoaderName => some "output filename, namespace name and function name are required"
  | .longInteger | .file _ | .nameless | .shapeless | .unsuited | .endlessParents | .homeless
  | .pathless | .tagless | .garbled | .unnamedEntry | .unplacedEntry | .scalar _ => none

/-- The command line reports the fault and fails, where others end it. -/
def isReported : Fault → Bool
  | .declaration .. | .source .. | .archive _ | .resolution _ | .settings _ | .config _
  | .missingKey .. | .manifestMissing _ => true
  | .file .missing => true
  | _ => false

/-- The fault that shows a datum, if the datum can be shown. -/
def showing (d : Datum) (fault : Fault) : Fault :=
  if d.holdsLongInteger then .longInteger else fault

end Fault

namespace Datum

/-- The datum as plain text, if it can be written. -/
def written (d : Datum) : Except Fault String :=
  if d.holdsLongInteger then .error .longInteger else .ok d.text

/-- Sorted by the plain texts, which are all written for it. -/
def sortedByText (ds : List Datum) : Except Fault (List Datum) :=
  if anyHoldsLong ds then .error .longInteger
  else .ok (ds.mergeSort fun a b => decide (a.text ≤ b.text))

end Datum

end BuildFiles
