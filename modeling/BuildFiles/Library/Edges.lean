import BuildFiles.Namespace.Declaration
import BuildFiles.Label

/-!
# Dependencies of a namespace

The labels that a declaration depends on: of the namespaces that it requires, the classes that it
imports and the class that its generated class extends. A namespace of the project's sources hides
one of a library, and what nothing on the classpath declares is left out.
-/

namespace BuildFiles

/-- A key that a table lacks, with the first keys that it has. -/
def Fault.lacking (key : String) (keys : List String) : Fault :=
  .missingKey key (Text.sorted (keys.take 10))

/-- The value at a key of a table of data; a fault if the table lacks it. -/
def Datum.demand (table : Entries Datum Datum) (key : Datum) : Except Fault Datum :=
  if key.keyable then
    match table.get? key with
    | some value => .ok value
    | none => .error (.lacking key.shown (table.keys.map Datum.text))
  else .error (.reading .unkeyable)

/-- What decides the label of a namespace or a class. -/
structure LabelTables where
  /-- the labels of the namespaces in the project's sources -/
  sourceLabels : Entries String String := []
  /-- the names of the targets of the namespaces in archives -/
  libraryTargets : Entries String String := []
  /-- the archives that classes are in -/
  classArchives : Entries String Path := []
  /-- the libraries that archives are of -/
  archiveLibraries : Entries Path String := []
  /-- the tag of the repository of libraries -/
  tag : String

namespace LabelTables

/-- The label of what declares a namespace, if something does. -/
def namespaceLabel? (t : LabelTables) (ns : String) : Option String :=
  match t.sourceLabels.get? ns with
  | some label => some label
  | none => (t.libraryTargets.get? ns).map (Label.qualify t.tag)

/-- The label of the target that imports an archive. -/
def archiveLabel (t : LabelTables) (archive : Path) : Except Fault String :=
  match t.archiveLibraries.get? archive with
  | some library => .ok (Label.qualify t.tag (Label.munge library))
  | none =>
    .error (.lacking ("PosixPath(" ++ Text.quoted archive.toText ++ ")")
      (t.archiveLibraries.keys.map Path.toText))

/-- The label of what holds a class, if something does. -/
def classLabel? (t : LabelTables) (className : String) : Except Fault (Option String) :=
  match t.classArchives.get? className with
  | some archive => (t.archiveLabel archive).map some
  | none => .ok none

/-- The labels of the classes, as far as there are any. -/
def classLabels (t : LabelTables) (classNames : List String) : Except Fault (List String) := do
  return Text.sortedOnce ((← classNames.mapM t.classLabel?).filterMap id)

/-- The labels of the namespaces that a declaration requires, besides its own. -/
def requireLabels (t : LabelTables) (d : Declaration) : List String :=
  Text.sortedOnce ((d.requires.filter (· != d.name)).filterMap t.namespaceLabel?)

/-- The labels of the classes that a declaration imports. -/
def importLabels (t : LabelTables) (d : Declaration) : Except Fault (List String) :=
  t.classLabels d.imports

/-- The label of the class that the generated class of a declaration extends. -/
def extendedLabels (t : LabelTables) (d : Declaration) : Except Fault (List String) :=
  t.classLabels d.extendedClass?.toList

/-- All labels that a declaration depends on, in order and each once. -/
def dependencies (t : LabelTables) (d : Declaration) : Except Fault (List String) := do
  let required := t.requireLabels d
  let imported ← t.importLabels d
  let extended ← t.extendedLabels d
  return Text.sortedOnce (required ++ imported ++ extended)

end LabelTables

end BuildFiles
