import BuildFiles.Basis
import BuildFiles.Rule.Target
import BuildFiles.Log

/-!
# The block that installs libraries

A call that names the coordinates of the direct dependencies and the repositories that they come
from. A dependency without a version is left out with a warning.
-/

namespace BuildFiles.Install

/-- The repositories unless others are named. -/
def defaultRepositories : List String := ["https://repo1.maven.org/maven2/"]

/-- The coordinate of a dependency as text; a warning if it has no version. -/
def artifact (library : String) (info : Datum) : Except Fault (Except Record String) :=
  match info.entries? with
  | none => .error .unsuited
  | some es =>
    match Entries.get? es (.str "mvn/version") with
    | none | some .nil =>
      .ok (.error ⟨.warning, "deps_build", s!"Unsupported dep type: {library} {info.shown}", false⟩)
    | some version => do
      return .ok (Text.replaceChar '/' ':' library ++ ":" ++ (← version.written))

/-- The coordinates and the warnings, in the order of the dependencies. -/
def artifacts (deps : Entries String Datum) : Except Fault (List (Except Record String)) :=
  deps.mapM fun (library, info) => artifact library info

/-- The warnings among the results. -/
def warnings (results : List (Except Record String)) : List Record :=
  results.filterMap fun
    | .error r => some r
    | .ok _ => none

/-- The call for the results. -/
def call (results : List (Except Record String)) (repositories : List Datum) : Datum :=
  let names := results.filterMap fun
    | .ok name => some name
    | .error _ => none
  let repositories :=
    if repositories.isEmpty then defaultRepositories.map .str else repositories
  .call "maven_install" [.named [("artifacts", .texts (Text.sorted names)),
    ("repositories", .vector repositories)]]

end BuildFiles.Install
