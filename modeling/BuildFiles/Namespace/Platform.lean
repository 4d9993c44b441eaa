import BuildFiles.Text.Basic

/-!
# Platforms

The two dialects of source files. Each reads the files with its own and with the shared ending, and
turns on its own reader feature.
-/

namespace BuildFiles

/-- A dialect of source files. -/
inductive Platform where
  | clj
  | cljs
  deriving DecidableEq, Inhabited

namespace Platform

/-- The name of the dialect, which is its reader feature too. -/
def name : Platform → String
  | .clj => "clj"
  | .cljs => "cljs"

/-- The endings of the files that it reads. -/
def endings : Platform → List String
  | .clj => [".clj", ".cljc"]
  | .cljs => [".cljs", ".cljc"]

/-- The reader features that are on. -/
def features (p : Platform) : List String := [p.name]

/-- The dialect reads files of that name. -/
def reads (p : Platform) (fileName : String) : Bool := p.endings.any (Text.endsWith fileName ·)

/-- The dialect of a name, with or without colons before it; any other name is of the first. -/
def ofName (name : String) : Platform :=
  if Text.dropLeading ':' name = "cljs" then .cljs else .clj

end Platform

end BuildFiles
