import BuildFiles.Json.Token

/-!
# JSON documents

Reading a document from its tokens, with the arrays and objects that are open on a stack. An array
is a vector, an object a map of texts, in which the last value of a repeated name stands at the
place of the first.
-/

namespace BuildFiles.Json

/-- An array or an object that is open. -/
inductive Open where
  /-- with the items read so far, the last first -/
  | array (items : List Datum)
  /-- with the entries read so far, and the name of the next -/
  | object (entries : Entries String Datum) (name : String)

/-- What is to come. -/
inductive Expected where
  | value
  /-- the first item of an array, or its end -/
  | item
  /-- the first name of an object, or its end -/
  | entry
  /-- another name of an object that has entries -/
  | name (entries : Entries String Datum)
  /-- what follows a value -/
  | after (d : Datum)

/-- An object. -/
def object (entries : Entries String Datum) : Datum :=
  .map (entries.map fun (k, v) => (.str k, v))

/-- Read a document from its tokens, where `stack` is open and `expected` is to come. -/
def run : Expected → List Open → List Token → Option Datum
  | .after d, [], [] => some d
  | .after d, .array xs :: stack, .comma :: ts => run .value (.array (d :: xs) :: stack) ts
  | .after d, .array xs :: stack, .endArray :: ts =>
    run (.after (.vector (d :: xs).reverse)) stack ts
  | .after d, .object es k :: stack, .comma :: ts => run (.name (es.insert k d)) stack ts
  | .after d, .object es k :: stack, .endObject :: ts =>
    run (.after (object (es.insert k d))) stack ts
  | .after _, _, _ => none
  | .item, .array _ :: stack, .endArray :: ts => run (.after (.vector [])) stack ts
  | .entry, stack, .endObject :: ts => run (.after (object [])) stack ts
  | .entry, stack, .scalar (.str k) :: .colon :: ts => run .value (.object [] k :: stack) ts
  | .name es, stack, .scalar (.str k) :: .colon :: ts => run .value (.object es k :: stack) ts
  | .entry, _, _ => none
  | .name _, _, _ => none
  | _, stack, .scalar d :: ts => run (.after d) stack ts
  | _, stack, .beginArray :: ts => run .item (.array [] :: stack) ts
  | _, stack, .beginObject :: ts => run .entry stack ts
  | _, _, _ => none

/-- Read a document. -/
def parse? (s : String) : Option Datum := (tokens? s).bind (run .value [])

end BuildFiles.Json
