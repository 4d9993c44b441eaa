import BuildFiles.Namespace.Declaration
import BuildFiles.Rule.Attributes
import BuildFiles.Datum.Plain

/-!
# Attributes in the metadata of a namespace

A source file may set attributes of its targets in the metadata of its namespace. Names in lists of
labels may be written as symbols or keywords, of which the name without its name space counts.
-/

namespace BuildFiles.Inline

/-- The name that a datum stands for. -/
def nameOf : Datum → Except Fault String
  | .keyword n => .ok n.base
  | .symbol n _ => .ok n.base
  | d => d.written

/-- The value of an attribute: of one that lists names the names, of one that is a name the name,
and of any other the plain datum. -/
def attributeValue (listed scalar : List String) (key : String) (value : Datum) :
    Except Fault Datum :=
  match listed.contains key, value.sequence? with
  | true, some xs => do return .texts (← xs.mapM nameOf)
  | _, _ => if scalar.contains key then do return .str (← nameOf value) else value.plain

/-- The attributes that a map sets; anything else sets none. -/
def attributes (listed scalar : List String) (raw : Option Datum) : Except Fault Attributes :=
  match raw.bind Datum.entries? with
  | none => .ok []
  | some es =>
    es.foldlM (fun (acc : Attributes) (k, v) => do
      let key ← nameOf k
      return acc.insert key (← attributeValue listed scalar key v)) []

/-- The attributes that a declaration sets for the target of its file. -/
def library (d : Declaration) : Except Fault Attributes :=
  attributes Attributes.labelAttributes []
    (d.metadata.get? (.keyword ⟨some "bazel", "clojure_library"⟩))

/-- The attributes that a declaration sets for the test target of its file. -/
def test (d : Declaration) : Except Fault Attributes :=
  attributes ["tags", "deps"] ["size", "timeout"]
    (d.metadata.get? (.keyword ⟨some "bazel", "clojure_test"⟩))

end BuildFiles.Inline
