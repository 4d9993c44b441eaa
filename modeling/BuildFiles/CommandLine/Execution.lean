import BuildFiles.CommandLine.Arguments
import BuildFiles.Pipeline

/-!
# Running a command

What a command line comes to in a tree of files: what it prints, the code that it exits with, and
the tree that it leaves. Paths are taken from the workspace root, which is an option, a variable of
the environment or the current folder. A fault that has words of its own is reported; any other
ends the run without a code.
-/

namespace BuildFiles.CommandLine

/-- What a run finds about it. -/
structure Environment where
  /-- the current folder -/
  folder : Path
  /-- the home folder -/
  home : String
  /-- the workspace root, if a variable names one -/
  workspace : Option String

/-- What a run comes to. -/
structure Outcome where
  /-- none for a run that a fault ends -/
  exit : Option Nat
  printed : String := ""
  reported : String := ""
  fault : Option Fault := none

/-- The home folder, unless it is written as if it was to be taken from one itself. -/
def Environment.homeFolder (e : Environment) : Except Fault Path :=
  if Text.startsWith e.home "~" then .error .homeless
  else
    let kept := Text.dropTrailing '/' e.home
    .ok (.parse (if kept.isEmpty then "/" else kept))

/-- A path whose first name may stand for the home folder. -/
def Environment.expand (e : Environment) (written : String) : Except Fault Path :=
  let p := Path.parse written
  match p.isRelative, p.names with
  | true, first :: rest =>
    if first = "~" then e.homeFolder.map fun home => { home with names := home.names ++ rest }
    else if Text.startsWith first "~" then .error .homeless
    else .ok p
  | _, _ => .ok p

/-- The workspace root. -/
def Environment.root (e : Environment) (option : Option String) : Except Fault Path := do
  match option, e.workspace.filter (fun s => !s.isEmpty) with
  | some s, _ => e.folder.resolved (← e.expand s)
  | none, some s => e.folder.resolved (.parse s)
  | none, none => return e.folder

/-- A path taken from the workspace root. -/
def Environment.within (e : Environment) (root : Path) (written : Written) : Except Fault Path :=
  match written with
  | some s => (e.expand s).map root.join
  | none => .error .pathless

/-- A path taken from the workspace root, if its option is there. -/
def Environment.within? (e : Environment) (root : Path) (written : Option Written) :
    Except Fault (Option Path) :=
  match written with
  | some w => (e.within root w).map some
  | none => .ok none

/-- The options of a run. -/
def options (e : Environment) (root : Path) (a : ProjectArguments) :
    Except Fault BuildFiles.Options := do
  return {
    manifest := ← e.within root a.manifest
    repository := ← e.within? root a.repository
    basisFile := ← e.within? root a.basisFile
    repositoryTag := a.repositoryTag
    aliases := a.aliases
    validate := a.validate }

/-- A path as it is shown: taken from the current folder if it is below it. -/
def shownPath (e : Environment) (p : Path) : String := ((p.relativeTo? e.folder).getD p).toText

/-- Run a command; gives what it prints. -/
def execute (e : Environment) (root : Path) : Command → Run String
  | .libraries project folder => do
    let o ← Run.logged (Logged.of (options e root project))
    let folder ← Run.logged (Logged.of (e.within root folder))
    let output ← Pipeline.writeLibraries o folder
    return s!"BUILD file written to {shownPath e output}\n"
  | .sources project => do
    let written ← Pipeline.writeSources (← Run.logged (Logged.of (options e root project)))
    return s!"{written.length} BUILD files written\n"
  | .loader fileName ns function folders excluded platform => do
    match fileName, ns, function with
    | some fileName, some ns, some function =>
      let output ← Pipeline.writeLoader
        { root, fileName, ns, function, folders, excluded, platform := .ofName platform }
      return s!"Namespace loader written to {shownPath e output}\n"
    | _, _, _ => do
      Pipeline.sayLoader (ns.getD (Datum.vector []).shown)
      throw .emptyLoaderName
  | .install project => do
    return (← Pipeline.install (← Run.logged (Logged.of (options e root project)))) ++ "\n"

/-- What is reported about a fault that ends a command. -/
def report (command : String) (f : Fault) : String :=
  let message := f.message?.getD foreignCause
  match f with
  | .manifestMissing _ | .file _ => message ++ "\n"
  | _ => s!"genbuild {command} failed: {message}\nRun with --verbose for more details.\n"

/-- The outcome of a command whose result and records these are. -/
def outcome (outlet : Outlet) (command : String) (records : List Record) :
    Except Fault String → Outcome
  | .ok printed => { exit := some 0, printed, reported := outlet.consoleText records }
  | .error f =>
    let said := outlet.consoleText records
    if f.isReported then { exit := some 1, reported := said ++ report command f }
    else { exit := none, reported := said, fault := some f }

/-- The outcome of a run that a fault ends before it begins. -/
def stopped (t : Tree) (f : Fault) : Outcome × Tree := ({ exit := none, fault := some f }, t)

/-- Run a command in a tree; `time` is written before each record in the file of records. -/
def runCommand (e : Environment) (a : Arguments) (time : String) (t : Tree) : Outcome × Tree :=
  let isQuiet := match a.command with
    | .install _ => true
    | _ => false
  let outlet := Outlet.configure a.verbose isQuiet a.logFile.isSome
  let logFile := a.logFile.mapM fun s => (e.expand s).map e.folder.settled
  match logFile with
  | .error f => stopped t f
  | .ok logFile =>
    match logFile.elim (.ok t) (t.append · .empty) with
    | .error f => stopped t (.file f)
    | .ok t =>
      match e.root a.root with
      | .error f => stopped t f
      | .ok root =>
        let (result, s) := (execute e root a.command).run.run { tree := t }
        let noted := logFile.elim (.ok s.tree) fun p =>
          s.tree.append p (outlet.fileText time s.records).toUTF8
        (outcome outlet a.command.name s.records result, noted.toOption.getD s.tree)

/-- Run a command line in a tree. -/
def run (e : Environment) (args : List String) (time : String) (t : Tree) : Outcome × Tree :=
  match parse args with
  | .error .refused => ({ exit := some 2, reported := usage }, t)
  | .error .help => ({ exit := some 0, printed := usage }, t)
  | .ok a => runCommand e a time t

end BuildFiles.CommandLine
