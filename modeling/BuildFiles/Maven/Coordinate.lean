import BuildFiles.Path

/-!
# Coordinates of libraries

A library in a version, and where a repository of the standard layout keeps its archive and its
description.
-/

namespace BuildFiles

/-- A library in a version. -/
structure Coordinate where
  group : String
  artifact : String
  version : String
  deriving DecidableEq

namespace Coordinate

/-- The coordinate of a library by its name; a name without an artifact is that of both. -/
def ofLibrary (name version : String) : Coordinate :=
  match Text.cutText? '/' name with
  | some (group, artifact) => ⟨group, if artifact.isEmpty then group else artifact, version⟩
  | none => ⟨name, name, version⟩

/-- The name of the library. -/
def library (c : Coordinate) : String := c.group ++ "/" ++ c.artifact

/-- The folder in a repository: the parts of the group, the artifact and the version. -/
def folder (c : Coordinate) : Path :=
  ((Text.segments '.' c.group).foldl (fun (p : Path) (part : String) => p / part) (.ofNames []))
    / c.artifact / c.version

/-- A file of the library in a repository, by its ending. -/
def file (c : Coordinate) (repository : Path) (ending : String) : Path :=
  repository.join c.folder / (c.artifact ++ "-" ++ c.version ++ ending)

/-- The archive of the library in a repository. -/
def archive (c : Coordinate) (repository : Path) : Path := c.file repository ".jar"

/-- The description of the library in a repository. -/
def pom (c : Coordinate) (repository : Path) : Path := c.file repository ".pom"

end Coordinate

end BuildFiles
