import BuildFiles.Entries
import BuildFiles.Text.Lines
import BuildFiles.Fault

/-!
# File trees

A tree of files and folders without links, as the files at their places together with the folders
that were made. Every place on the way to something is a folder, so nothing lies outside of a
folder. What is asked of a tree by path takes the way name by name, as `locate` does, and `..`
leads out of a folder only if the way into it exists. `get?_put` says what writing changes.
-/

namespace BuildFiles

/-- A place of a tree: the names on the way to it from the root. -/
abbrev Location := List String

/-- A tree of files and folders. -/
structure Tree where
  files : Entries Location ByteArray := []
  folders : List Location := []

namespace Tree

/-! ## Places -/

/-- The last name on the way to a place. -/
def lastName (l : Location) : String := l.getLast?.getD ""

/-- The content of the file at a place. -/
def get? (t : Tree) (l : Location) : Option ByteArray := t.files.get? l

/-- Something was put at a place or below it. -/
def leadsOn (l : Location) (place : Location) : Bool := l.isPrefixOf place && l != place

/-- There is a file at a place. -/
def isFile (t : Tree) (l : Location) : Bool := t.files.has l

/-- There is a folder at a place. -/
def isFolder (t : Tree) (l : Location) : Bool :=
  l.isEmpty || t.folders.any l.isPrefixOf || t.files.keys.any (leadsOn l)

/-- Put a file at a place. -/
def put (t : Tree) (l : Location) (content : ByteArray) : Tree :=
  { t with files := t.files.insert l content }

/-- Make a folder at a place. -/
def makeFolder (t : Tree) (l : Location) : Tree :=
  if t.isFolder l then t else { t with folders := l :: t.folders }

/-- Take away the file or the folder at a place; the folder that it was in stays. -/
def remove (t : Tree) (l : Location) : Tree :=
  let kept (place : Location) : Bool := !l.isPrefixOf place
  ⟨t.files.filter fun e => kept e.1, l.dropLast :: t.folders.filter kept⟩

/-- The name under which a place lies in the folder at `l`, or under which the way to it goes on. -/
def nameWithin? (l place : Location) : Option String :=
  if l.isPrefixOf place then (place.drop l.length).head? else none

/-- The names in the folder at a place, each once. -/
def names (t : Tree) (l : Location) : List String :=
  ((t.files.keys ++ t.folders).filterMap (nameWithin? l)).eraseDups

/-- The names of the files in the folder at a place, in order. -/
def fileNames (t : Tree) (l : Location) : List String :=
  Text.sorted ((t.names l).filter fun n => t.isFile (l ++ [n]))

/-- The way from a place to each file below it. -/
def filesBelow (t : Tree) (l : Location) : List Location :=
  (t.files.keys.filter (leadsOn l)).map (·.drop l.length)

/-- The number of files and of their bytes. -/
def size (t : Tree) : Nat := t.files.foldl (fun n e => n + 1 + e.2.size) 0

theorem get?_put (t : Tree) (l l' : Location) (content : ByteArray) :
    (t.put l content).get? l' = if l == l' then some content else t.get? l' :=
  Entries.get?_insert t.files l l' content

theorem isFile_eq_isSome (t : Tree) (l : Location) : t.isFile l = (t.get? l).isSome :=
  Entries.has_eq_isSome t.files l

/-! ## Paths -/

/-- The most bytes of a name. -/
def longestName : Nat := 255

/-- The most bytes of a path. -/
def longestPath : Nat := 4095

/-- A name that holds the null character. -/
def isBroken (name : String) : Bool := name.toList.contains '\x00'

/-- The names of a path that a file system can take. -/
def namesOf (p : Path) : Except FileFault (List String) :=
  if p.names.any isBroken then .error .nullCharacter
  else if longestPath < p.toText.utf8ByteSize then .error .tooLong
  else .ok p.names

/-- A file system can take the path, and each of its names. -/
def fits (p : Path) : Bool :=
  (namesOf p).isOk && p.names.all fun n => decide (n.utf8ByteSize ≤ longestName)

/-! ## Walks -/

/-- The ways to the folders that a way leads through, the last of them its end. -/
def stops : Location → List Location
  | [] => []
  | n :: ns => [n] :: (stops ns).map (n :: ·)

/-- The path that a walk down from a folder goes by; below the dot it goes on from the dot. -/
def walkedPath (folder : Path) (way : Location) : Path :=
  if folder = .ofNames [] then .ofNames ("." :: way) else folder.join (.ofNames way)

/-- A walk down from a folder goes into the one at the end of the way: it is one to keep, and its
path is no longer than a file system can take. -/
def walksInto (keeps : Path → Bool) (folder : Path) (way : Location) : Bool :=
  keeps (folder.join (.ofNames way)) && fits (walkedPath folder way)

/-- The way to each file that a walk down from a folder at the place comes to. -/
def filesWalked (t : Tree) (keeps : Path → Bool) (folder : Path) (l : Location) : List Location :=
  (t.filesBelow l).filter fun way => (stops way.dropLast).all (walksInto keeps folder)

/-! ## What paths lead to -/

/-- Go on from a place through names. What the last of them leads to need not be there. -/
def go (t : Tree) : Location → List String → Except FileFault Location
  | l, [] => .ok l
  | l, n :: ns =>
    if !t.isFolder l then .error (if t.isFile l then .notFolder else .missing)
    else if longestName < n.utf8ByteSize then .error .tooLong
    else go t (if n = ".." then l.dropLast else l ++ [n]) ns

/-- The place that a path from the root leads to. -/
def locate (t : Tree) (p : Path) : Except FileFault Location := do t.go [] (← namesOf p)

/-- What holds of the place that a path leads to; nothing holds of a path that leads nowhere. -/
def holdsAt (t : Tree) (p : Path) (holds : Location → Bool) : Except FileFault Bool :=
  match t.locate p with
  | .ok l => .ok (holds l)
  | .error .tooLong => .error .tooLong
  | .error _ => .ok false

/-- There is a folder where the path leads. -/
def hasFolder (t : Tree) (p : Path) : Except FileFault Bool := t.holdsAt p t.isFolder

/-- The path leads to something. -/
def has (t : Tree) (p : Path) : Except FileFault Bool :=
  t.holdsAt p fun l => t.isFile l || t.isFolder l

/-- The content of the file that the path leads to. -/
def read (t : Tree) (p : Path) : Except FileFault ByteArray := do
  let l ← t.locate p
  match t.get? l with
  | some content => .ok content
  | none => .error (if t.isFolder l then .isFolder else .missing)

/-- The text of the file that the path leads to, with every line ending written as a line feed. -/
def readText (t : Tree) (p : Path) : Except FileFault String := do
  match String.fromUTF8? (← t.read p) with
  | some s => .ok (Text.plainLines s)
  | none => .error .notText

/-- Make the folder that names lead to, in a folder that is there. -/
def makeIn (t : Tree) (names : List String) : Except FileFault Tree := do
  let l ← t.go [] names
  if t.isFile l then .error .taken else .ok (t.makeFolder l)

/-- Make the folder that reversed names lead to, and those on the way that are not there. -/
def makeAll (t : Tree) : List String → Except FileFault Tree
  | [] => .ok t
  | n :: before =>
    match t.makeIn (n :: before).reverse with
    | .error .missing => do (← makeAll t before).makeIn (n :: before).reverse
    | made => made

/-- Make the folder that a path leads to, and those on the way that are not there. -/
def makeFolders (t : Tree) (p : Path) : Except FileFault Tree := do
  t.makeAll (← namesOf p).reverse

/-- Write a file, with the folders on the way to it. -/
def write (t : Tree) (p : Path) (content : ByteArray) : Except FileFault Tree := do
  let t ← t.makeFolders p.parent
  let l ← t.locate p
  if t.isFolder l then .error .isFolder else .ok (t.put l content)

/-- Write to the end of a file, which is made if it is not there; its folder is to be there. -/
def append (t : Tree) (p : Path) (content : ByteArray) : Except FileFault Tree := do
  let l ← t.locate p
  if t.isFolder l then .error .isFolder
  else .ok (t.put l ((t.get? l).getD .empty ++ content))

/-- How many bytes the name of the file that stands in for another while it is written has more. -/
def standInLength : Nat := 14

/-- Write a file by way of another one beside it. -/
def replace (t : Tree) (p : Path) (content : ByteArray) : Except FileFault Tree := do
  let t ← t.makeFolders p.parent
  if longestName < p.name.utf8ByteSize + standInLength then .error .tooLong
  else if p.name = ".." then .error .nameless
  else t.write p content

/-- Write a text to a file unless the file reads as that text already; tells whether it wrote. -/
def update (t : Tree) (p : Path) (content : String) : Except FileFault (Tree × Bool) :=
  let written := (t.replace p content.toUTF8).map fun t => (t, true)
  match t.readText p with
  | .ok old => if old = content then .ok (t, false) else written
  | .error .missing | .error .notText => written
  | .error e => .error e

end Tree

/-- The path from the root that `p` is when taken from `base`, with `..` carried out. What it leads
to need not be there, but its names are to be some that a file system can hold. -/
def Path.resolved (base p : Path) : Except Fault Path :=
  if (base.join p).names.any Tree.isBroken then .error (.file .nullCharacter)
  else .ok (base.settled p)

end BuildFiles
