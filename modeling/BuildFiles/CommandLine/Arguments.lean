import BuildFiles.CommandLine.Options

/-!
# The commands and their arguments

A command line names one of four commands, with options before it that hold for all of them and
options after it that are its own.
-/

namespace BuildFiles.CommandLine

/-- The value that is written for an option, none for an option that is written without its
value. -/
abbrev Written := Option String

/-- What is asked for about the manifest and the resolution, as written. -/
structure ProjectArguments where
  manifest : Written
  aliases : Option (List String)
  repository : Option Written
  basisFile : Option Written
  repositoryTag : Option Written
  validate : Option Bool

/-- A command with its arguments. -/
inductive Command where
  | libraries (project : ProjectArguments) (folder : Written)
  | sources (project : ProjectArguments)
  | loader (fileName ns function : Written) (folders excluded : List String) (platform : String)
  | install (project : ProjectArguments)

/-- The name of a command. -/
def Command.name : Command → String
  | .libraries .. => "deps"
  | .sources _ => "srcs"
  | .loader .. => "ns-loader"
  | .install _ => "maven-install"

/-- The arguments of a run. The workspace root and the file of records are written with a text that
is not empty, or as if not at all. -/
structure Arguments where
  verbose : Bool
  root : Option String
  logFile : Option String
  command : Command

/-- An option that is its own value. -/
def flag (name purpose : String) : OptionSpec :=
  { key := name, names := ["--" ++ name], arity := .none, purpose := purpose }

/-- An option that takes one value. -/
def single (name purpose : String) : OptionSpec := { flag name purpose with arity := .one }

/-- An option that is its own value and has a letter too. -/
def lettered (letter name purpose : String) : OptionSpec :=
  { flag name purpose with names := ["-" ++ letter, "--" ++ name] }

/-- The options that ask for help and for more records. -/
def sharedSpecs : List OptionSpec :=
  [lettered "h" "help" "show this text and exit",
    lettered "v" "verbose" "show every record of the run"]

/-- The options before the command. -/
def mainSpecs : List OptionSpec :=
  sharedSpecs ++ [
    single "workspace-root"
      "folder that paths are taken from (default: $BUILD_WORKSPACE_DIRECTORY or the current one)",
    single "log-file" "file that the records are appended to as well"]

/-- The options about the manifest. -/
def manifestSpecs : List OptionSpec :=
  [single "deps-edn" "manifest of the project (default: deps.edn)",
    { flag "aliases" "aliases of the manifest to apply" with arity := .any }]

/-- The options about the resolution. -/
def resolutionSpecs : List OptionSpec :=
  [single "repository-dir" "local repository that holds the archives of the libraries",
    single "basis" "file of an already resolved basis, which wins over a repository",
    { single "deps-repo-tag" "name of the repository of libraries, after an @ (default: @deps)" with
      accepts := fun s => Text.startsWith s "@" },
    flag "validate" "refuse a target that depends on anything but labels"]

/-- The options about a loader. -/
def loaderSpecs : List OptionSpec :=
  [single "output-filename" "file to write",
    single "output-ns-name" "name of the namespace in it",
    single "output-fn-name" "name of the function in it",
    { flag "in-dirs" "folders whose namespaces are required" with arity := .atLeastOne },
    { flag "exclude-nses" "namespaces to leave out" with arity := .any },
    { single "platform" "dialect whose files are read (default: :clj)" with
      accepts := [":clj", ":cljs", "clj", "cljs"].contains }]

/-- A command as it is asked for. -/
structure CommandSpec where
  name : String
  purpose : String
  /-- the options besides those that every command has -/
  options : List OptionSpec

/-- The commands. -/
def commandSpecs : List CommandSpec :=
  [⟨"deps", "write the build file of the repository of libraries",
      manifestSpecs ++ resolutionSpecs ++ [single "deps-build-dir" "folder of that build file"]⟩,
    ⟨"srcs", "write a build file to every folder of sources",
      manifestSpecs ++ resolutionSpecs⟩,
    ⟨"ns-loader", "write a namespace that requires all those in some folders",
      loaderSpecs⟩,
    ⟨"maven-install", "print the block that installs the libraries of the manifest",
      manifestSpecs⟩]

/-- The options of a command. -/
def specsOf? (name : String) : Option (List OptionSpec) :=
  (commandSpecs.find? fun c => c.name == name).map fun c => sharedSpecs ++ c.options

/-! ## Usage -/

/-- How the values of an option are written. -/
def Arity.usage : Arity → String
  | .none => ""
  | .one => " VALUE"
  | .any => " [VALUE ...]"
  | .atLeastOne => " VALUE [VALUE ...]"

/-- How an option is written, and what it is for. -/
def OptionSpec.usage (s : OptionSpec) : String :=
  "  " ++ ", ".intercalate s.names ++ s.arity.usage ++ "\n      " ++ s.purpose ++ "\n"

/-- What a command is for, and its options. -/
def CommandSpec.usage (c : CommandSpec) : String :=
  "\n" ++ c.name ++ ": " ++ c.purpose ++ "\n" ++ String.join (c.options.map OptionSpec.usage)

/-- How the program is called. -/
def usage : String :=
  "usage: genbuild [options] command [options of the command]\n\n"
    ++ String.join (mainSpecs.map OptionSpec.usage)
    ++ String.join (commandSpecs.map CommandSpec.usage)

/-! ## Reading -/

/-- What the options say about the manifest and the resolution. -/
def projectArguments (o : Options) : ProjectArguments where
  manifest := (o.written? "deps-edn").getD (some "deps.edn")
  aliases := o.values.get? "aliases"
  repository := o.written? "repository-dir"
  basisFile := o.written? "basis"
  repositoryTag := o.written? "deps-repo-tag"
  validate := if o.has "validate" then some true else none

/-- The command of a name with its options, if all that it needs is there. -/
def command? (name : String) (o : Options) : Option Command :=
  match name with
  | "deps" => do return .libraries (projectArguments o) (← o.written? "deps-build-dir")
  | "srcs" => some (.sources (projectArguments o))
  | "ns-loader" => do
    return .loader (← o.written? "output-filename") (← o.written? "output-ns-name")
      (← o.written? "output-fn-name") (← o.values.get? "in-dirs")
      ((o.values.get? "exclude-nses").getD []) ((o.value? "platform").getD ":clj")
  | "maven-install" => some (.install (projectArguments o))
  | _ => none

/-- Read the arguments of a run. -/
def parse (args : List String) : Except Halt Arguments := do
  let (shared, rest) ← Options.readToWord mainSpecs {} (← classifyAll mainSpecs args)
  match rest with
  | [] => throw .refused
  | name :: rest =>
    let some specs := specsOf? name | throw .refused
    let own ← Options.read specs {} (← classifyAll specs rest)
    match command? name own, shared.hasStray || own.hasStray with
    | some command, false =>
      return {
        verbose := shared.has "verbose" || own.has "verbose"
        root := shared.text? "workspace-root"
        logFile := shared.text? "log-file"
        command := command }
    | _, _ => throw .refused

end BuildFiles.CommandLine
