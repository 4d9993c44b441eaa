import BuildFiles.Sources.Targets
import BuildFiles.Sources.Folders
import BuildFiles.Rule.BuildFile

/-!
# Build files of folders

The build file of a folder of sources: the targets of its files, and for each dialect a library and
a group of files that stand for the whole subtree, because each refers to the same of the folders
directly below.
-/

namespace BuildFiles

namespace Sources

/-- The names of the two targets that stand for a subtree in a dialect. -/
structure Aggregate where
  platform : Platform
  library : String
  files : String

/-- The targets that stand for subtrees. -/
def aggregates : List Aggregate :=
  [⟨.clj, "__clj_lib", "__clj_files"⟩, ⟨.cljs, "__cljs_lib", "__cljs_files"⟩]

/-- What the build files of folders are made from. -/
structure Layout extends Context where
  /-- the folders that get a build file -/
  folders : List Path
  ignored : List Path

namespace Layout

/-- The files in a folder that a platform reads, as far as they are not ignored. -/
def filesIn (l : Layout) (t : Tree) (folder : Path) (platform : Platform) :
    Except Fault (List Path) :=
  match t.locate folder with
  | .error e => .error (.file e)
  | .ok place =>
    if t.isFolder place then
      .ok (((t.fileNames place).filter platform.reads).map (fun n => folder.join (.ofNames [n]))
        |>.filter fun p => !p.isIgnored l.ignored)
    else .error (.file (if t.isFile place then .notFolder else .missing))

/-- The targets of the files in a folder. -/
def fileTargets (l : Layout) (t : Tree) (folder : Path) : Logged (List Target) := do
  return (← (← Logged.of (l.filesIn t folder .clj)).mapM (l.targets t)).flatten

/-- The labels of a target in each of the folders. -/
def labelsOf (l : Layout) (folders : List Path) (name : String) : Except Fault Datum := do
  return .texts (← folders.mapM fun p => Label.inPackage l.base p name)

/-- The two targets that stand for a subtree in one dialect. -/
def aggregateTargets (l : Layout) (t : Tree) (folder : Path) (strip : Option String)
    (a : Aggregate) : Except Fault (List Target) := do
  let below := children l.folders folder
  let names : Datum := .texts ((← l.filesIn t folder a.platform).map Path.name)
  let library : Attributes :=
    [("name", .str a.library), ("resources", names)] ++ Context.stripAttributes strip
      ++ [("deps", ← l.labelsOf below a.library)]
  let files : Attributes :=
    [("name", .str a.files), ("srcs", names), ("data", ← l.labelsOf below a.files)]
  return [⟨.aggregateLibrary, library⟩, ⟨.aggregateFiles, files⟩]

/-- The targets that stand for the subtree of a folder. -/
def subtreeTargets (l : Layout) (t : Tree) (folder : Path) : Except Fault (List Target) := do
  let strip ← l.stripPrefix? folder
  return (← aggregates.mapM (l.aggregateTargets t folder strip)).flatten

/-- What a build file starts with. -/
def head (settings : Settings) : Except Fault String := do
  let loads ← BuildFile.loads settings.extension ["clojure_library", "clojure_test"]
  return "#autogenerated, do not edit\n" ++ (← BuildFile.package) ++ "\n" ++ loads

/-- The text of the build file of a folder. -/
def text (l : Layout) (t : Tree) (folder : Path) : Logged String := do
  let rules ← Logged.of ((← l.fileTargets t folder).mapM Target.render)
  let subtree ← Logged.of ((← Logged.of (l.subtreeTargets t folder)).mapM Target.render)
  let head ← Logged.of (head l.settings)
  return BuildFile.sections (head :: rules ++ subtree) ++ "\n"

/-- Bring the build file of a folder up to date. -/
def generate (l : Layout) (t : Tree) (folder : Path) : Logged (Tree × Path) := do
  let output := folder.join (.ofNames [BuildFile.fileName])
  let text ← l.text t folder
  match t.update output text with
  | .error e => throw (.file e)
  | .ok (t, changed) =>
    let done := if changed then "Wrote" else "Unchanged"
    Logged.debug "srcs" s!"{done} {output}"
    return (t, output)

end Layout

end Sources

end BuildFiles
