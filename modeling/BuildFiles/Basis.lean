import BuildFiles.Datum.Key
import BuildFiles.Datum.Display
import BuildFiles.Text.Basic

/-!
# Resolved libraries

A basis is what resolving a manifest comes to: the classpath, which holds folders of sources and
archives of libraries, and the trace of the decisions that led to it.
-/

namespace BuildFiles

/-- An element of the classpath: a folder of sources, or the archive of a library. -/
structure ClasspathEntry where
  path : Path
  /-- what contributed a folder of sources -/
  pathKey : Option String := none
  /-- the library that an archive is of -/
  library : Option String := none

/-- A decision: a library, reached through the libraries of the path, and why it was taken or
not. -/
structure TraceRecord where
  path : List String
  library : String
  reason : String
  deriving DecidableEq

/-- The library that asked for the one recorded; a library of the manifest has none. -/
def TraceRecord.parent? (r : TraceRecord) : Option String := r.path.getLast?

/-- The result of a resolution. -/
structure Basis where
  classpath : List ClasspathEntry := []
  trace : List TraceRecord := []
  /-- the source paths as the manifest writes them -/
  paths : List Datum := []
  deps : Entries String Datum := []
  repositories : List Datum := []

namespace Basis

/-- The folders of sources. -/
def sourceEntries (b : Basis) : List ClasspathEntry :=
  b.classpath.filter fun e => e.library.isNone

/-- The archives with their libraries, in the order of the classpath. -/
def libraries (b : Basis) : List (Path × String) :=
  b.classpath.filterMap fun e => e.library.map fun l => (e.path, l)

end Basis

/-! ## Dependencies between libraries -/

/-- The reasons of records that are no edge between libraries. -/
def edgelessReasons : List String := ["excluded", "parent-omitted"]

/-- The edge that a record makes. -/
def TraceRecord.edge? (r : TraceRecord) : Option (String × String) :=
  if edgelessReasons.contains r.reason then none else r.parent?.map fun p => (p, r.library)

/-- The libraries that each library directly depends on, in the order of their names. -/
def directDependencies (trace : List TraceRecord) : Entries String (List String) :=
  let edges := trace.filterMap TraceRecord.edge?
  let parents := (edges.map Prod.fst).eraseDups
  parents.map fun p =>
    (p, Text.sortedOnce ((edges.filter fun e => e.1 == p).map Prod.snd))

end BuildFiles
