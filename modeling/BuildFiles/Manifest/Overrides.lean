import BuildFiles.Datum.Plain
import BuildFiles.Rule.Attributes
import BuildFiles.Fault

/-!
# Overrides

The block of a manifest that changes what is generated: attributes for all source and test targets,
attributes for targets by their labels, source paths to pass over, and namespaces that are never
compiled ahead of time. `Overrides.ofDatum` checks a block against this schema and tells every
disagreement with its place.
-/

namespace BuildFiles

/-- What a manifest changes about the generated targets. -/
structure Overrides where
  clojureLibrary : Attributes := []
  clojureTest : Attributes := []
  deps : Entries String Attributes := []
  ignore : List String := []
  noAot : List String := []

namespace Overrides

/-- A disagreement with the schema, with its place in the block. -/
abbrev Violation := List String × SchemaViolation

/-- A checked part: what disagrees with the schema, and the part as far as it agrees. -/
structure Checked (α : Type) where
  violations : List Violation
  value : α

/-- A key as an item of a place. -/
def keyText : Datum → String
  | .str s => s
  | .bool b => if b then "1" else "0"
  | d => d.shown

/-- One entry of a map of texts to what `check` accepts. -/
def checkEntry {α : Type} (check : List String → Datum → Checked α) (place : List String)
    (acc : Checked (Entries String α)) (e : Datum × Datum) : Checked (Entries String α) :=
  let here := place ++ [keyText e.1]
  let checked := check here e.2
  match e.1 with
  | .str s => ⟨acc.violations ++ checked.violations, acc.value.insert s checked.value⟩
  | _ => ⟨acc.violations ++ (here ++ ["[key]"], .notText) :: checked.violations, acc.value⟩

/-- A map of texts to what `check` accepts. -/
def checkMap {α : Type} (check : List String → Datum → Checked α) (place : List String)
    (d : Datum) : Checked (Entries String α) :=
  match d.entries? with
  | none => ⟨[(place, .notMap)], []⟩
  | some es => es.foldl (checkEntry check place) ⟨[], []⟩

/-- Any datum. -/
def checkAny (_ : List String) (d : Datum) : Checked Datum := ⟨[], d⟩

/-- A map of attributes. -/
def checkAttributes : List String → Datum → Checked Attributes := checkMap checkAny

/-- A list of texts. -/
def checkTexts (place : List String) (d : Datum) : Checked (List String) :=
  match d with
  | .vector xs =>
    ⟨xs.zipIdx.filterMap fun (x, i) =>
        if x.text?.isSome then none else some (place ++ [toString i], .notText),
      xs.filterMap Datum.text?⟩
  | _ => ⟨[(place, .notList)], []⟩

/-- A key that attributes may be set for. -/
def isOverridable (label : String) : Bool :=
  Text.contains label "//" || Text.startsWith label ":"

/-- A map of labels to attributes. -/
def checkDeps (place : List String) (d : Datum) : Checked (Entries String Attributes) :=
  let checked := checkMap checkAttributes place d
  if checked.violations.isEmpty && !checked.value.keys.all isOverridable then
    ⟨[(place, .badValue)], checked.value⟩
  else checked

/-- The names that the fields of a block may be written under, the preferred ones first. -/
def fieldNames : List (List String) :=
  [["clojure_library"], ["clojure_test"], ["deps"], ["ignore"], ["no-aot", "no_aot"]]

/-- The name that a field is written under in the block. -/
def writtenAs? (es : Entries Datum Datum) (names : List String) : Option String :=
  names.find? fun n => es.has (.str n)

/-- A field of the block, empty if it is not written. -/
def checkField {α : Type} (es : Entries Datum Datum) (names : List String)
    (check : List String → Datum → Checked (List α)) : Checked (List α) :=
  match writtenAs? es names with
  | none => ⟨[], []⟩
  | some n =>
    match es.get? (.str n) with
    | some d => check [n] d
    | none => ⟨[], []⟩

/-- The disagreement of a key that is no name of a field. -/
def strayKey? (es : Entries Datum Datum) (key : Datum) : Option Violation :=
  match key with
  | .str s =>
    if (fieldNames.filterMap (writtenAs? es)).contains s then none
    else some ([s], .unknownField)
  | d => some ([keyText d], .badKey)

/-- Check the entries of a block. -/
def check (es : Entries Datum Datum) : Checked Overrides :=
  let clojureLibrary := checkField es ["clojure_library"] checkAttributes
  let clojureTest := checkField es ["clojure_test"] checkAttributes
  let deps := checkField es ["deps"] checkDeps
  let ignore := checkField es ["ignore"] checkTexts
  let noAot := checkField es ["no-aot", "no_aot"] checkTexts
  ⟨clojureLibrary.violations ++ clojureTest.violations ++ deps.violations ++ ignore.violations
      ++ noAot.violations ++ es.keys.filterMap (strayKey? es),
    ⟨clojureLibrary.value, clojureTest.value, deps.value, ignore.value, noAot.value⟩⟩

/-- Read the block; null is an empty one. -/
def ofDatum (raw : Datum) : Except Fault Overrides :=
  match raw with
  | .nil => .ok {}
  | .map _ => do
    let checked := check ((← raw.plain).entries?.getD [])
    if checked.violations.isEmpty then return checked.value
    else throw (.settings (.overridesInvalid checked.violations))
  | _ => .error (.settings .overridesNotMap)

end Overrides

end BuildFiles
