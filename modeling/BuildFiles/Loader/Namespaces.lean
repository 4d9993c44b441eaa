import BuildFiles.Loader.Text
import BuildFiles.Namespace.Files

/-!
# Loaders

A loader is a source file that requires every namespace below some folders, except those that are to
be left out and itself.
-/

namespace BuildFiles

namespace Loader

/-- The namespaces below folders without those to leave out, in order and each once. -/
def namespaces (t : Tree) (folders : List Path) (platform : Platform) (excluded : List String) :
    Logged (List String) := do
  let found ← folders.mapM fun folder => Source.declarationsIn t folder platform
  let names := found.flatten.map fun (_, d) => d.name
  return Text.sortedOnce (names.filter fun n => !excluded.contains n)

/-- What a loader is asked for with. -/
structure Request where
  /-- the folder that the paths are taken from -/
  root : Path
  fileName : String
  ns : String
  function : String
  folders : List String
  excluded : List String := []
  platform : Platform := .clj

/-- Write the loader that is asked for. -/
def Request.generate (r : Request) (t : Tree) : Logged (Tree × Path) := do
  if r.fileName.isEmpty || r.ns.isEmpty || r.function.isEmpty then throw .emptyLoaderName
  let folders := r.folders.map fun s => r.root.join (.parse s)
  let names ← namespaces t folders r.platform (r.ns :: r.excluded)
  let output := r.root.join (.parse r.fileName)
  match t.update output (text r.fileName r.ns r.function names r.platform) with
  | .error e => throw (.file e)
  | .ok (t, _) =>
    Logged.info "ns_loader" s!"Wrote {output} requiring {names.length} namespaces"
    return (t, output)

end Loader

end BuildFiles
