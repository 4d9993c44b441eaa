import BuildFiles.Label

/-!
# Settings of a run

What the generated files refer to besides the project itself: the repository of libraries, the
extension that defines the rules and the library that sources are compiled with.
-/

namespace BuildFiles

/-- The tag of the repository of libraries unless another is set. -/
def defaultRepositoryTag : String := "@deps"

/-- The extension that defines the rules unless another is set. -/
def defaultExtension : String := "@rules_clojure//:rules.bzl"

/-- The settings of a run. -/
structure Settings where
  repositoryTag : String := defaultRepositoryTag
  extension : String := defaultExtension
  baseLibrary : String := Label.baseLibrary
  validate : Bool := false

namespace Settings

/-- Refuse settings whose repository tag is none. -/
def checked (s : Settings) : Except Fault Settings :=
  if Text.startsWith s.repositoryTag "@" then .ok s
  else .error (.settings (.badRepositoryTag s.repositoryTag))

/-- The label of the library that sources are compiled with. -/
def baseLabel (s : Settings) : String := Label.qualify s.repositoryTag (Label.munge s.baseLibrary)

end Settings

end BuildFiles
