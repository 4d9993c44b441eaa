import BuildFiles.Yaml.Document
import BuildFiles.Settings
import BuildFiles.Tree

/-!
# Configuration

The configuration file beside a manifest sets what a run does unless its options say otherwise. A
value of a kind that does not fit is passed over, and a file that is missing or empty sets nothing.
-/

namespace BuildFiles

/-- What a configuration file sets. -/
structure Configuration where
  /-- the folder of the file -/
  root : Path
  settings : Settings := {}
  aliases : List String := []
  repository : Option Path := none
  basisFile : Option Path := none

namespace Configuration

/-- A scalar as text. A truth value is none. -/
def scalarText? (d : Datum) : Except Fault (Option String) :=
  match d with
  | .str _ | .int _ | .float _ => d.written.map some
  | _ => .ok none

/-- The words for the two truth values, besides the values themselves. -/
def trueWords : List String := ["true", "yes", "1"]

/-- A truth value, which may be written as text. -/
def isTrue : Datum → Bool
  | .bool b => b
  | .str s => trueWords.contains (Text.trim s).toLower
  | _ => false

/-- A scalar in a list as text. -/
def itemText? (d : Datum) : Except Fault (Option String) :=
  match d with
  | .bool _ => d.written.map some
  | _ => scalarText? d

/-- The texts of a list; a text alone is a list of one. -/
def itemTexts : Datum → Except Fault (List String)
  | .str s => .ok [s]
  | .vector xs => do return (← xs.mapM itemText?).reduceOption
  | _ => .ok []

/-- The value under a name; nothing stands for null. -/
def valueAt (es : Entries Datum Datum) (name : String) : Datum := (es.get? (.str name)).getD .nil

/-- The text under a name, if there is one that says something. -/
def textAt? (es : Entries Datum Datum) (name : String) : Except Fault (Option String) := do
  return (← scalarText? (valueAt es name)).filter fun s => !s.isEmpty

/-- The configuration that the entries of a file in a folder set. -/
def ofEntries (root : Path) (es : Entries Datum Datum) : Except Fault Configuration := do
  let repositoryTag ← textAt? es "deps_repo_tag"
  let aliases ← itemTexts (valueAt es "aliases")
  let repository ← textAt? es "repository_dir"
  let basisFile ← textAt? es "basis_file"
  let extension ← textAt? es "rules_bzl"
  let baseLibrary ← textAt? es "base_library"
  return {
    root
    settings := {
      repositoryTag := repositoryTag.getD defaultRepositoryTag
      extension := extension.getD defaultExtension
      baseLibrary := baseLibrary.getD Label.baseLibrary
      validate := isTrue (valueAt es "validate") }
    aliases
    repository := repository.map fun s => root.join (.parse s)
    basisFile := basisFile.map fun s => root.join (.parse s) }

/-- A value that says nothing, and stands for an empty file. -/
def isVoid : Datum → Bool
  | .nil => true
  | .bool b => !b
  | .int n => n == 0
  | .float x => x.toRat? == some 0
  | .str s => s.isEmpty
  | .vector xs => xs.isEmpty
  | .set xs => xs.isEmpty
  | _ => false

/-- How deep into a file settings are: items are inside of lists, and these inside of the whole. -/
def depth : Nat := 2

/-- The configuration that a text in a folder sets. -/
def ofText (root : Path) (text : String) : Except Fault Configuration :=
  if (Text.trim text).isEmpty then .ok { root } else
    match Yaml.parse depth text with
    | .error .malformed => .error (.config .malformed)
    | .error (.scalar cause) => .error (.scalar cause)
    | .ok (.map es) => ofEntries root es
    | .ok d => if isVoid d then .ok { root } else .error (.config .notMapping)

/-- The configuration file that a path is, or is beside, or that is in the folder there. -/
def file (t : Tree) (p : Path) : Except Fault Path := do
  let isFolder ← (t.hasFolder p).mapError .file
  let found := if isFolder then p.join (.ofNames [configFileName])
    else if p.name = configFileName then p
    else p.parent.join (.ofNames [configFileName])
  found.resolved (.ofNames [])

/-- The configuration for a path. -/
def ofFile (t : Tree) (p : Path) : Except Fault Configuration := do
  let found ← file t p
  if ← (t.has found).mapError .file then
    ofText found.parent (← (t.readText found).mapError .file)
  else return { root := found.parent }

end Configuration

end BuildFiles
