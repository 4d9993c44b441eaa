import BuildFiles.Rule.Attributes
import BuildFiles.Datum.Render

/-!
# Targets

A target is one call of a rule in a build file: its kind, which decides the rule, and its
attributes. `Target.render` is its text, and `Target.validate` refuses one whose labels are not all
labels.
-/

namespace BuildFiles

/-- The kinds of targets. -/
inductive TargetKind where
  | sourceLibrary
  | test
  | archiveImport
  | compiledModule
  | aggregateLibrary
  | aggregateFiles
  deriving DecidableEq

/-- The rule that makes targets of a kind. -/
def TargetKind.rule : TargetKind → String
  | .sourceLibrary | .compiledModule | .aggregateLibrary => "clojure_library"
  | .test => "clojure_test"
  | .archiveImport => "java_import"
  | .aggregateFiles => "filegroup"

/-- A target. -/
structure Target where
  kind : TargetKind
  attributes : Attributes

namespace Target

/-- The name of a target; a fault if none is set, or if it cannot be written. -/
def name (t : Target) : Except Fault String :=
  match t.attributes.get? "name" with
  | some d => d.written
  | none => .error .nameless

/-- The labels of the targets that it depends on. -/
def deps (t : Target) : Except Fault (List Datum) :=
  match t.attributes.get? "deps" with
  | none => .ok []
  | some value =>
    match value.members? with
    | some xs => .ok xs
    | none => .error .shapeless

/-- The target as a call of its rule. -/
def toCall (t : Target) : Datum := .call t.kind.rule [.named t.attributes]

/-- The text of the target. -/
def render (t : Target) : Except Fault String := t.toCall.render

/-- Refuse the target if one of the labels of the attribute is no label. -/
def validateAt (t : Target) (key : String) : Except Fault Unit := do
  match ← t.attributes.badLabelAt? key with
  | none => return
  | some d =>
    let name ← t.name
    throw (.showing d (.settings (.badLabel name key d)))

/-- Refuse the target if one of its labels is no label. -/
def validate (t : Target) : Except Fault Unit :=
  Attributes.labelAttributes.forM t.validateAt

end Target

end BuildFiles
