import BuildFiles.Basis
import BuildFiles.Label

/-!
# Which library an archive is of

Every archive on the classpath is of one library, and every library has one archive; anything else
is a fault.
-/

namespace BuildFiles

/-- The archives with their libraries, taken one after the other onto those before them. -/
def claimArchives : Entries Path String → List (Path × String) →
    Except Fault (Entries Path String)
  | claimed, [] => .ok claimed
  | claimed, (archive, library) :: rest =>
    match claimed.get? archive with
    | some other => .error (.resolution (.archiveClaimedTwice archive other library))
    | none =>
      match claimed.find? fun e => e.2 == library with
      | some (other, _) => .error (.resolution (.libraryTwice library other archive))
      | none => claimArchives (claimed ++ [(archive, library)]) rest

/-- The libraries of the archives of a basis. -/
def Basis.archiveLibraries (b : Basis) : Except Fault (Entries Path String) :=
  claimArchives [] b.libraries

/-! ## Compilation ahead of time -/

/-- The namespaces that are never compiled ahead of time, besides those that a manifest names. -/
def neverCompiled : List String := ["clojure.core"]

/-- The namespaces that are not compiled ahead of time. -/
def excludedFromCompilation (named : List String) : List String :=
  Text.sortedOnce (neverCompiled ++ named)

/-- A namespace is compiled ahead of time. -/
def isCompiled (excluded : List String) (ns : String) : Bool :=
  !(excluded.contains ns || neverCompiled.contains ns)

end BuildFiles
