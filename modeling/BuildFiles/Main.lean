import BuildFiles.CommandLine.Reach
import Std.Time.Format

/-!
# The program

The outer layer: it takes in the part of the file system that a run reaches as a tree, runs the
command line in it, and writes down the files that the run changed.
-/

namespace BuildFiles.CommandLine

/-- Take in what is at a location, and, if `deep`, all that is below it. -/
partial def takeIn (deep : Bool) (t : Tree) (l : Location) : IO Tree := do
  let place := (← IO.currentDir) / ("/" ++ "/".intercalate l)
  if ← place.isDir then
    let t := t.makeFolder l
    if deep then (← place.readDir).foldlM (fun t e => takeIn true t (l ++ [e.fileName])) t
    else return t
  else if ← place.pathExists then return t.put l (← IO.FS.readBinFile place)
  else return t

/-- Take in a place. -/
def Place.takeIn (t : Tree) : Place → IO Tree
  | .file p => CommandLine.takeIn false t (p.settled default).names
  | .below p => CommandLine.takeIn true t (p.settled default).names

/-- Take in the places that a run reaches, besides those that are known. -/
partial def gather (e : Environment) (args : List String) (known : List Place) (t : Tree) :
    IO Tree := do
  let new := (places e args t).filter fun p => !known.contains p
  if new.isEmpty then return t
  else gather e args (known ++ new) (← new.foldlM Place.takeIn t)

/-- Write down the files of a tree that another one does not have. -/
def writeDown (old new : Tree) : IO Unit :=
  new.files.forM fun (l, content) => do
    unless old.get? l == some content do
      let place := (← IO.currentDir) / ("/" ++ "/".intercalate l)
      if let some folder := place.parent then IO.FS.createDirAll folder
      let beside := place.withFileName ("." ++ Tree.lastName l ++ ".tmp")
      IO.FS.writeBinFile beside content
      IO.FS.rename beside place

end BuildFiles.CommandLine

open BuildFiles BuildFiles.CommandLine in
/-- Run the command line. -/
def main (args : List String) : IO UInt32 := do
  let e : Environment := {
    folder := .parse (← IO.currentDir).toString
    home := (← IO.getEnv "HOME").getD ""
    workspace := ← IO.getEnv "BUILD_WORKSPACE_DIRECTORY" }
  let tree ← gather e args [] ((({} : Tree)).makeFolder e.folder.names)
  let time ← Std.Time.PlainDateTime.now
  let (outcome, changed) := run e args (time.format "uuuu-MM-dd HH:mm:ss,SSS") tree
  writeDown tree changed
  IO.print outcome.printed
  IO.eprint outcome.reported
  if let some fault := outcome.fault then
    IO.eprintln (fault.message?.getD "the run cannot go on")
  return (outcome.exit.getD 1).toUInt32
