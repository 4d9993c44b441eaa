import BuildFiles.Rule.Target

/-!
# Build files

A build file is a sequence of sections with an empty line between them: the declaration of its
package with what it loads, and its targets.
-/

namespace BuildFiles.BuildFile

/-- The name of a build file. -/
def fileName : String := "BUILD.bazel"

/-- The sections of a text, with an empty line between them. -/
def sections (texts : List String) : String := "\n\n".intercalate texts

/-- The declaration of the package. -/
def package : Except Fault String := Datum.packageCall.render

/-- The call that loads rules from an extension. -/
def loads (extension : String) (rules : List String) : Except Fault String :=
  (Datum.loadCall extension rules).render

end BuildFiles.BuildFile
