import BuildFiles.Json.Document
import BuildFiles.Manifest.Aliases

/-!
# Resolved bases in files

A basis that was resolved elsewhere, as a document. What the document does not say is taken from the
manifest, from whose folder its paths are taken.
-/

namespace BuildFiles

namespace BasisFile

/-- The value under a name, if the document has one. -/
def field? (es : Entries Datum Datum) (name : String) : Option Datum := es.get? (.str name)

/-- The items under a name, none if the document has no such name. -/
def itemsAt (es : Entries Datum Datum) (name : String) : Except Fault (Option (List Datum)) :=
  match field? es name with
  | none => .ok none
  | some d =>
    match d.members? with
    | some xs => .ok (some xs)
    | none => .error .shapeless

/-- The library of a name. -/
def library (d : Datum) : String := Label.canonicalLibrary d.text

/-- An element of the classpath. -/
def entry (file base : Path) (d : Datum) : Except Fault ClasspathEntry :=
  match d.entries?.map fun es => (es, field? es "path") with
  | some (es, some (.str p)) => do
    let path ← base.resolved (.parse p)
    match field? es "lib" with
    | none | some .nil =>
      let key := (field? es "path_key").getD (.str Manifest.ownKey)
      return { path := path, pathKey := some key.text }
    | some lib => return { path := path, library := some (library lib) }
  | _ => .error (.resolution (.badEntry file d))

/-- A record of the trace. -/
def record (file : Path) (d : Datum) : Except Fault TraceRecord :=
  match d.entries?.map fun es => (es, field? es "lib") with
  | some (es, some lib) => do
    let path := (← itemsAt es "path").getD []
    return ⟨path.map library, library lib, ((field? es "reason").getD (.str "new-dep")).text⟩
  | _ => .error (.resolution (.badRecord file d))

/-- The libraries that the project depends on, as a document or the manifest names them. -/
def depsOf (es : Entries Datum Datum) (m : Manifest) : Entries String Datum :=
  match field? es "deps" with
  | some (.map deps) => deps.map fun (k, v) => (k.text, v)
  | _ => m.deps

/-- The document in a file. -/
def document (t : Tree) (file : Path) : Except Fault (Entries Datum Datum) :=
  match t.readText file with
  | .error .missing => .error (.resolution (.basisMissing file))
  | .error e => .error (.file e)
  | .ok text =>
    match Json.parse? text with
    | none => .error (.resolution (.basisMalformed file))
    | some (.map es) => .ok es
    | some _ => .error (.resolution (.basisNotObject file))

/-- The basis that a file holds for a manifest under aliases. -/
def resolve (t : Tree) (file : Path) (m : Manifest) (aliases : List String) : Logged Basis := do
  let es ← Logged.of (document t file)
  let classpath ← Logged.of do ((← itemsAt es "classpath").getD []).mapM (entry file m.folder)
  let trace ← Logged.of do ((← itemsAt es "trace").getD []).mapM (record file)
  let _ ← Logged.of (m.sourceEntries aliases)
  Logged.debug "resolver"
    s!"Loaded basis with {classpath.length} classpath entries from {file}"
  let paths ← Logged.of (itemsAt es "paths")
  let repositories ← Logged.of (itemsAt es "repos")
  return {
    classpath := classpath
    trace := trace
    paths := paths.getD ((m.keyedPaths aliases).keys.map .str)
    deps := depsOf es m
    repositories := repositories.getD (m.repositories.values.map .str) }

end BasisFile

end BuildFiles
