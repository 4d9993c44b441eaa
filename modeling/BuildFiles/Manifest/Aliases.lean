import BuildFiles.Manifest.Basic

/-!
# Manifests under aliases

What a manifest comes to when aliases are asked for: its source paths and theirs, each path once and
tagged with who named it first, and its dependencies under theirs, where the last alias wins. An
alias that the manifest does not define adds nothing.
-/

namespace BuildFiles

namespace Manifest

/-- The name of an alias, which may be written as a keyword. -/
def aliasName (written : String) : String := Text.dropLeading ':' written

/-- The aliases that are asked for and defined, with their names. -/
def requested (m : Manifest) (aliases : List String) : List (String × Alias) :=
  aliases.filterMap fun a => (m.aliases.get? (aliasName a)).map fun found => (aliasName a, found)

/-- What the aliases add together. -/
def combined (m : Manifest) (aliases : List String) : Alias where
  extraPaths := ((m.requested aliases).flatMap fun a => a.2.extraPaths).eraseDups
  extraDeps := .ofList ((m.requested aliases).flatMap fun a => a.2.extraDeps)

/-- What is said about aliases that are not defined. -/
def undefinedNotes (m : Manifest) (aliases : List String) : List Record :=
  (aliases.filter fun a => !m.aliases.has (aliasName a)).map fun a =>
    ⟨.warning, "manifest", s!"Alias :{aliasName a} is not defined in {m.path.name}", false⟩

/-- The key of the paths of the manifest itself. -/
def ownKey : String := "paths"

/-- The source paths with the keys of those who name them, each path once. -/
def keyedPaths (m : Manifest) (aliases : List String) : Entries String String :=
  let own := m.paths.map fun p => (p, ownKey)
  let added := (m.requested aliases).flatMap fun a => a.2.extraPaths.map fun p => (p, a.1)
  (own ++ added).foldl (fun (acc : Entries String String) e => acc.insertNew e.1 e.2) []

/-- The folders of sources, as elements of a classpath. -/
def sourceEntries (m : Manifest) (aliases : List String) : Except Fault (List ClasspathEntry) :=
  (m.keyedPaths aliases).mapM fun (p, key) =>
    (m.folder.resolved (.parse p)).map fun path => { path := path, pathKey := some key }

/-- The dependencies by the canonical names of the libraries. -/
def topLevel (m : Manifest) (aliases : List String) : Entries String Datum :=
  .ofList <| (Entries.insertAll m.deps (m.combined aliases).extraDeps).map fun (library, d) =>
    (Label.canonicalLibrary library, d)

end Manifest

end BuildFiles
