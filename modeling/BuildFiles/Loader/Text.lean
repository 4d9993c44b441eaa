import BuildFiles.Namespace.Platform

/-!
# The text of a loader

A namespace that requires others and a function that returns their names. In a file that both
dialects read, the clause of requirements is a conditional of the dialect that they were found for.
-/

namespace BuildFiles.Loader

/-- The names, each on a line of its own. -/
def nameLines (names : List String) : String := "\n    ".intercalate names

/-- The text of a loader in a file of the given name. -/
def text (fileName ns function : String) (names : List String) (platform : Platform) : String :=
  let shared := Text.endsWith fileName ".cljc"
  let opening := if shared then "#?(:" ++ platform.name else ""
  let closing := if shared then ")" else ""
  ";;; Generated by bazel, do not edit\n\n(ns " ++ ns ++ "\n  " ++ opening ++ "(:require "
    ++ nameLines names ++ "))" ++ closing ++ "\n\n\n(defn " ++ function ++ " []\n    '["
    ++ nameLines names ++ "])\n"

end BuildFiles.Loader
