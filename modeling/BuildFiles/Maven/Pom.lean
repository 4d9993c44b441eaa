import BuildFiles.Maven.Coordinate
import BuildFiles.Maven.Properties
import BuildFiles.Xml.Element
import BuildFiles.Logged

/-!
# Descriptions of libraries

What the description of a library says about its dependencies: the properties that its texts refer
to, the versions that it manages for other libraries, and the dependencies that it mentions. All
three are inherited from a parent, and the description itself wins over it; `followed` are the
dependencies that count.
-/

namespace BuildFiles

/-- A dependency as a description mentions it, before properties are expanded. -/
structure Mention where
  group : String
  artifact : String
  version : String
  scope : String
  isOptional : Bool
  type : String
  classifier : String
  /-- the names of libraries that are not to be taken in by way of it -/
  exclusions : List String

/-- A dependency that counts. -/
structure Dependency where
  library : String
  version : String
  exclusions : List String
  deriving DecidableEq

/-- What a description says. -/
structure Pom where
  properties : Properties := []
  /-- the versions of libraries that dependencies without one have -/
  managed : Entries String String := []
  mentions : List Mention := []

namespace Pom

/-! ## Reading -/

/-- The name space of the names in a description, which is that of the whole. A star stands for
any, and what goes over lines for none. -/
def spaceOf (root : Xml.Element) : Option String :=
  let space := root.name.space
  if space = "*" then none else if space.contains '\n' then some "" else some space

/-- The children at the end of a way of names. -/
def reached (space : Option String) (e : Xml.Element) (way : List String) : List Xml.Element :=
  way.foldl (fun es base => es.flatMap fun e => e.named space base) [e]

/-- The text of the first child of a name, or another if there is none. -/
def textOr (space : Option String) (e : Xml.Element) (base default : String) : String :=
  (e.textOf? space base).getD default

/-- The text of the first child of a name, empty if there is none. -/
def textOf (space : Option String) (e : Xml.Element) (base : String) : String :=
  textOr space e base ""

/-- A text that says something, or another in its place. -/
def filled (s default : String) : String := if s.isEmpty then default else s

/-- The library that an exclusion names, if it names one. -/
def excluded? (space : Option String) (e : Xml.Element) : Option String :=
  let group := textOf space e "groupId"
  let artifact := textOf space e "artifactId"
  if group.isEmpty || artifact.isEmpty then none else some (group ++ "/" ++ artifact)

/-- A dependency as it is mentioned. -/
def mention (space : Option String) (e : Xml.Element) : Mention where
  group := textOf space e "groupId"
  artifact := textOf space e "artifactId"
  version := textOf space e "version"
  scope := filled (textOr space e "scope" "compile") "compile"
  isOptional := textOr space e "optional" "false" == "true"
  type := filled (textOr space e "type" "jar") "jar"
  classifier := textOf space e "classifier"
  exclusions := (reached space e ["exclusions", "exclusion"]).filterMap (excluded? space)

/-- The dependencies that the first of the elements mentions. -/
def mentionsIn (space : Option String) (es : List Xml.Element) : List Mention :=
  match es.head? with
  | some e => (e.named space "dependency").map (mention space)
  | none => []

/-- The parent that a description names. -/
def parent? (root : Xml.Element) : Option Coordinate :=
  let space := spaceOf root
  (root.named space "parent").head?.map fun e =>
    ⟨textOf space e "groupId", textOf space e "artifactId", textOf space e "version"⟩

/-- The properties that every description has. -/
def ownProperties (c : Coordinate) : Properties :=
  [("project.groupId", c.group), ("project.artifactId", c.artifact),
    ("project.version", c.version), ("pom.version", c.version)]

/-- The properties that a description defines. -/
def definedProperties (root : Xml.Element) : Properties :=
  match (root.named (spaceOf root) "properties").head? with
  | some e => e.children.map fun p => (p.name.base, Text.trim p.text)
  | none => []

/-- The property of the version of the parent. -/
def parentVersion : String := "project.parent.version"

/-- The properties of a description under a parent. -/
def inheritedProperties (parent : Option Coordinate) (inherited : Pom) : Properties :=
  match parent with
  | some p => inherited.properties.insertNew parentVersion p.version
  | none => inherited.properties

/-- The library that a mention is of. -/
def libraryOf (properties : Properties) (m : Mention) : String :=
  properties.expand m.group ++ "/" ++ properties.expand m.artifact

/-- The versions that the mentions manage. -/
def managedBy (properties : Properties) (ms : List Mention) : List (String × String) :=
  (ms.filter fun m => !m.version.isEmpty).map fun m => (libraryOf properties m, m.version)

/-- The description of a library, on top of what it inherits. -/
def ofElement (c : Coordinate) (inherited : Pom) (root : Xml.Element) : Pom :=
  let space := spaceOf root
  let properties := inheritedProperties (parent? root) inherited
    |>.insertAll (ownProperties c) |>.insertAll (definedProperties root)
  let managing := mentionsIn space (reached space root ["dependencyManagement", "dependencies"])
  { properties := properties
    managed := Entries.insertAll inherited.managed (managedBy properties managing)
    mentions := mentionsIn space (root.named space "dependencies") }

/-! ## Dependencies -/

/-- The scopes of dependencies that count. -/
def followedScopes : List String := ["compile", "runtime"]

/-- The mention is one that counts, if it is of an archive of the common kind. -/
def isFollowed (m : Mention) : Bool := followedScopes.contains m.scope && !m.isOptional

/-- The mention is of an archive of the common kind. -/
def isPlain (m : Mention) : Bool := m.type == "jar" && m.classifier.isEmpty

/-- The version of a mentioned dependency: its own, or else the one that is managed. -/
def versionOf (p : Pom) (m : Mention) : String :=
  let own := p.properties.expand m.version
  p.properties.expand (filled own ((p.managed.get? (libraryOf p.properties m)).getD ""))

/-- The dependency that a mention is. -/
def dependency (p : Pom) (c : Coordinate) (m : Mention) : Except Fault Dependency :=
  let library := libraryOf p.properties m
  let version := p.versionOf m
  if version.isEmpty then .error (.resolution (.versionMissing c.library c.version library))
  else .ok ⟨library, version, m.exclusions⟩

/-- What a mention comes to: a dependency, or a remark that it is passed over. -/
def follow (p : Pom) (c : Coordinate) (m : Mention) : Logged (Option Dependency) :=
  if isPlain m then return some (← Logged.of (p.dependency c m))
  else do
    Logged.debug "resolver" s!"Skipping {m.group}:{m.artifact} ({m.type} {m.classifier})"
    return none

/-- The dependencies of a library that count. -/
def followed (p : Pom) (c : Coordinate) : Logged (List Dependency) := do
  return (← (p.mentions.filter isFollowed).mapM (p.follow c)).filterMap id

end Pom

end BuildFiles
