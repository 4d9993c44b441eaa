import BuildFiles.Manifest.Overrides
import BuildFiles.Reader.Forms
import BuildFiles.Basis
import BuildFiles.Label
import BuildFiles.Tree
import BuildFiles.Logged

/-!
# Manifests

A manifest names the source paths of a project and the libraries that it depends on. Aliases add
paths and dependencies when they are asked for. `Manifest.ofText` reads one; its folder is what all
paths in it are taken from.
-/

namespace BuildFiles

/-- What an alias adds. -/
structure Alias where
  extraPaths : List String := []
  extraDeps : Entries String Datum := []

/-- A manifest. -/
structure Manifest where
  path : Path
  paths : List String := []
  /-- the coordinates of the libraries that the project depends on -/
  deps : Entries String Datum := []
  aliases : Entries String Alias := []
  /-- where libraries come from, by name -/
  repositories : Entries String String := []
  overrides : Overrides := {}

namespace Manifest

/-- The name of a manifest in its folder. -/
def fileName : String := "deps.edn"

/-- The folder that the manifest is in. -/
def folder (m : Manifest) : Path := m.path.parent

/-! ## Reading -/

/-- The value at a plain keyword. -/
def valueAt (es : Entries Datum Datum) (name : String) : Datum := (es.get? (.key name)).getD .nil

/-- A list of texts; null is an empty one. -/
def textsAt (es : Entries Datum Datum) (name : String) : Except Fault (List String) :=
  match valueAt es name with
  | .nil => .ok []
  | d =>
    match d.sequence? with
    | some xs =>
      if xs.all fun x => x.text?.isSome then .ok (xs.filterMap Datum.text?)
      else .error (.settings (.notTexts name))
    | none => .error (.settings (.notTexts name))

/-- One dependency with its coordinate. -/
def dependency (key coordinate : Datum) : Except Fault (String × Datum) :=
  match key.symbolName?, coordinate.entries? with
  | none, _ => .error (.showing key (.settings (.dependencyNotSymbol key)))
  | some n, none => .error (.settings (.coordinateNotMap n.text))
  | some n, some _ => do return (n.text, ← coordinate.plain)

/-- A map of dependencies; null is an empty one. -/
def dependencies : Datum → Except Fault (Entries String Datum)
  | .nil => .ok []
  | .map es => return .ofList (← es.mapM fun (k, v) => dependency k v)
  | _ => .error (.settings .depsNotMap)

/-- One alias with its name. -/
def aliasOf (key body : Datum) : Except Fault (String × Alias) :=
  match key.keywordName?, body.entries? with
  | some n, some es => do
    let paths ← textsAt es "extra-paths"
    return (n.text, ⟨paths, ← dependencies (valueAt es "extra-deps")⟩)
  | _, _ => .error (.showing key (.settings (.badAlias key)))

/-- A map of aliases; null is an empty one. -/
def aliasesOf : Datum → Except Fault (Entries String Alias)
  | .nil => .ok []
  | .map es => return .ofList (← es.mapM fun (k, v) => aliasOf k v)
  | _ => .error (.settings .aliasesNotMap)

/-- Where a repository is, if its description says it. -/
def placeOf? (info : Datum) : Option String := do (valueAt (← info.entries?) "url").text?

/-- The repositories that a map names with a place; all else is passed over. -/
def repositoriesOf (d : Datum) : Except Fault (Entries String String) := do
  let placed := (d.entries?.getD []).filterMap fun (key, info) => (placeOf? info).map ((key, ·))
  return .ofList (← placed.mapM fun (key, place) => do return (← key.written, place))

/-- The manifest that a map is. -/
def ofEntries (path : Path) (es : Entries Datum Datum) : Except Fault Manifest := do
  let paths ← textsAt es "paths"
  let deps ← dependencies (valueAt es "deps")
  let aliases ← aliasesOf (valueAt es "aliases")
  let repositories ← repositoriesOf ((es.get? (.keyword ⟨some "mvn", "repos"⟩)).getD .nil)
  return ⟨path, paths, deps, aliases, repositories, ← Overrides.ofDatum (valueAt es "bazel")⟩

/-- Read a manifest; nothing, or null, is an empty one. -/
def ofText (path : Path) (text : String) : Except Fault Manifest :=
  match Reader.first text Reader.defaultFeatures with
  | .error (.malformed cause line) => .error (.settings (.manifestMalformed path cause line))
  | .error e => .error (.reading e)
  | .ok .nil => ofEntries path []
  | .ok (.map es) => ofEntries path es
  | .ok _ => .error (.settings (.manifestNotMap path.name))

/-- Read the manifest at a path, or in the folder that is there. -/
def ofFile (t : Tree) (written : Path) : Except Fault Manifest := do
  let settled ← written.resolved (.ofNames [])
  let isFolder ← (t.hasFolder settled).mapError .file
  let path := if isFolder then settled.join (.ofNames [fileName]) else settled
  if ← (t.has path).mapError .file then ofText path (← (t.readText path).mapError .file)
  else throw (.manifestMissing path)

end Manifest

end BuildFiles
