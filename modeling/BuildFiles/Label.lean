import BuildFiles.Text.Word
import BuildFiles.Path
import BuildFiles.Fault

/-!
# Labels

How targets are named and referred to. A library or a namespace becomes part of a target's name by
`munge`, a target of the repository of libraries is `qualify`d by the tag of that repository, and a
file of the project is labelled by the package of its folder.
-/

namespace BuildFiles.Label

/-- The library that sources are compiled with unless the settings say otherwise. -/
def baseLibrary : String := "org.clojure/clojure"

/-- A name with an underscore for each character that is none of a word. -/
def munge (name : String) : String := name.map fun c => if Text.isWord c then c else '_'

/-- The name of the target that compiles a namespace out of the archive of a library. -/
def compiled (library ns : String) : String := "ns_" ++ munge library ++ "_" ++ munge ns

/-- The label of a target of the repository of libraries. -/
def qualify (tag name : String) : String := tag ++ "//:" ++ name

/-- The label of a target of the same package. -/
def ofSamePackage (name : String) : String := ":" ++ name

/-- The path taken from the folder that labels are taken from; nothing outside of it has a label. -/
def relative (base path : Path) : Except Fault Path :=
  match path.relativeTo? base with
  | some p => .ok p
  | none => .error (.settings (.outside path base))

/-- The label of a target in the package of a folder. -/
def inPackage (base folder : Path) (name : String) : Except Fault String := do
  let rel ← relative base folder
  return "//" ++ (if rel.names.isEmpty then "" else rel.toText) ++ ":" ++ name

/-- The label of a file. -/
def ofFile (base file : Path) : Except Fault String := inPackage base file.parent file.name

/-- The name of a library with its group; a name without one is its own group. -/
def canonicalLibrary (name : String) : String :=
  if name.toList.contains '/' then name else name ++ "/" ++ name

end BuildFiles.Label
