import BuildFiles.Archive.Layout
import BuildFiles.Namespace.Files

/-!
# Contents of archives

What the archive of a library declares: the namespaces of its source files, in the order of its
entries, and its classes. Source files that cannot be read are passed over; an entry that cannot be
taken out makes the archive unusable.
-/

namespace BuildFiles.Archive

/-- What an archive declares. -/
structure Contents where
  declarations : List Declaration
  /-- the names of the classes, in order and each once -/
  classes : List String

namespace Contents

/-- The names of the namespaces, in order and each once. -/
def namespaces (c : Contents) : List String := Text.sortedOnce (c.declarations.map (·.name))

/-- The archive holds a class. -/
def isCompiled (c : Contents) : Bool := !c.classes.isEmpty

/-- The ending of the files of classes. -/
def classEnding : String := ".class"

/-- The class that is in a file of the name; a line feed may follow the name, and none is in it. -/
def className? (fileName : String) : Option String :=
  let cs := fileName.toList
  let line := if cs.getLast? = some '\n' then cs.dropLast else cs
  let size := line.length - classEnding.length
  if 0 < size && !line.contains '\n' && Text.endsWith (String.ofList line) classEnding then
    some (Text.replaceChar '/' '.' (String.ofList (line.take size)))
  else none

/-- An archive with its directory. -/
structure Opened where
  path : Path
  bytes : ByteArray
  entries : List Entry

/-- Open an archive. -/
def opened (t : Tree) (p : Path) : Except Fault Opened :=
  if p.suffix ≠ ".jar" then .error (.archive (.notArchive p)) else
    match t.read p with
    | .error .nullCharacter => .error (.file .nullCharacter)
    | .error _ => .error (.archive (.unreadable p))
    | .ok bytes =>
      match entries bytes with
      | .ok entries => .ok ⟨p, bytes, entries⟩
      | .error .notText => .error (.file .notText)
      | .error _ => .error (.archive (.unreadable p))

/-- Where a declaration in an archive was read. -/
def Opened.place (o : Opened) (e : Entry) : String := s!"{o.path}!/{e.shownName}"

/-- The text of an entry, none if it is not text. -/
def Opened.text? (o : Opened) (e : Entry) : Except Fault (Option String) :=
  match content o.bytes e with
  | .ok bytes => .ok (String.fromUTF8? bytes)
  | .error .notText => .ok none
  | .error .corrupt => .error (.archive (.corruptEntry (o.place e)))
  | .error .unreadable => .error (.archive (.unreadable o.path))
  | .error .garbled => .error .garbled
  | .error .unplaced => .error .unplacedEntry

/-- The declaration that an entry starts with, none for an entry that is passed over. -/
def Opened.declaration? (o : Opened) (e : Entry) : Logged (Option Declaration) := do
  let place := o.place e
  match ← Logged.of (o.text? e) with
  | none =>
    Logged.debug "archives" s!"Skipping non-UTF-8 entry {place}"
    return none
  | some text =>
    match Source.declaration? text place .clj with
    | .ok d => return d
    | .error fault =>
      if Source.isSkippable fault then
        let why := fault.message?.getD foreignCause
        Logged.debug "archives" s!"Skipping unreadable entry {place}: {why}"
        return none
      else throw fault

/-- The entry is a source file. -/
def isSource (e : Entry) : Bool :=
  (className? e.shownName).isNone && Platform.clj.reads e.shownName

/-- The declaration that an entry starts with, if it is a source file. An entry is to have a
name. -/
def Opened.visit (o : Opened) (e : Entry) : Logged (Option Declaration) := do
  if e.shownName.isEmpty then throw .unnamedEntry
  else if !e.isFolder && isSource e then o.declaration? e
  else return none

/-- What an archive of the tree declares. -/
def ofFile (t : Tree) (p : Path) : Logged Contents := do
  let o ← Logged.of (opened t p)
  let declarations := (← o.entries.mapM o.visit).filterMap id
  let files := o.entries.filter fun e => !e.isFolder
  let classes := Text.sortedOnce (files.filterMap fun e => className? e.shownName)
  Logged.debug "archives"
    s!"Scanned {p.name}: {declarations.length} namespaces, {classes.length} classes"
  return ⟨declarations, classes⟩

end Contents

end BuildFiles.Archive
