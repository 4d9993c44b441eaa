import BuildFiles.Datum.Key
import BuildFiles.Fault

/-!
# Plain data

Forms as the data that rules are written from: symbols and keywords become text, lists and vectors
become vectors, and a set becomes the vector of its elements in the order of their texts. Two keys
of a map may fall together, and then the later value stands at the earlier key. A key that holds a
set or a map inside of another collection cannot stay a key, and a set with an integer of too many
digits cannot be sorted; then there is no plain datum.
-/

namespace BuildFiles.Datum

/-- A plain datum as a key: a vector is the list of its items. -/
def plainKey : Datum → Datum
  | .vector xs => .list xs
  | d => d

/-- The key that a plain datum stands for, if it can be one. -/
def asPlainKey (d : Datum) : Except Fault Datum :=
  if (plainKey d).keyable then .ok (plainKey d) else .error (.reading .unkeyable)

mutual

/-- The plain datum of a form. -/
def plain : Datum → Except Fault Datum
  | .symbol n _ => .ok (.str n.text)
  | .keyword n => .ok (.str n.text)
  | .list xs => do return .vector (← plainAll xs)
  | .vector xs => do return .vector (← plainAll xs)
  | .set xs => do return .vector (← sortedByText (← plainAll xs))
  | .map es => do return .map (Entries.ofList (← plainEntries es))
  | d => .ok d

/-- The plain data of forms. -/
def plainAll : List Datum → Except Fault (List Datum)
  | [] => .ok []
  | x :: xs => do
    let y ← plain x
    let ys ← plainAll xs
    return y :: ys

/-- The plain data of the entries of a map, not yet joined at equal keys. -/
def plainEntries : List (Datum × Datum) → Except Fault (List (Datum × Datum))
  | [] => .ok []
  | (k, v) :: es => do
    let k' ← plain k
    let v' ← plain v
    let key ← asPlainKey k'
    let rest ← plainEntries es
    return (key, v') :: rest

end

end BuildFiles.Datum
