import BuildFiles.Datum.Key
import BuildFiles.Yaml.Node
import BuildFiles.Yaml.Scalar

/-!
# Settings files

The datum that a text is. Every node has to stand for a value of its kind: a scalar has to have the
form, a collection the content, and what is a key in a mapping cannot be a collection. A mapping
takes in the entries of others under the key `<<`, before its own. Faults are found from the whole
inwards: those of what a collection holds before those of what is in turn in that.

As a collection can hold itself, the datum goes down only so deep into a text.
-/

namespace BuildFiles.Yaml

/-- What going through nodes keeps. -/
structure Visit where
  nodes : Array Node
  /-- whether a node was seen -/
  seen : Array Bool
  /-- the collections that are to be gone through, the last first -/
  ahead : List Nat := []

/-- Computations that go through nodes. -/
abbrev Visiting := StateT Visit (Except Damage)

/-- The scalar or collection that a mapping or a scalar stands for as a text: that of a scalar is
its own, that of a mapping stands under a key for it. -/
def textOf? (nodes : Array Node) : Nat → Nat → Option String
  | 0, _ => none
  | fuel + 1, id =>
    match nodes[id]? with
    | some ⟨_, .scalar text⟩ => some text
    | some ⟨_, .mapping entries⟩ =>
      (entries.find? fun (k, _) => nodes[k]?.any fun n => n.kind = .stand).bind fun (_, v) =>
        textOf? nodes fuel v
    | _ => none

/-- The value of a node that is no collection. -/
def scalarAt (nodes : Array Node) (id : Nat) : Except Damage Datum :=
  match nodes[id]?, textOf? nodes (nodes.size + 1) id with
  | some n, some text => n.kind.scalar text
  | _, _ => .error .malformed

namespace Visit

/-- The node of a number. -/
def nodeAt (id : Nat) : Visiting Node := do
  match (← get).nodes[id]? with
  | some n => return n
  | none => throw .malformed

/-- See a node: the value of a scalar is looked at, and a collection is gone through later. -/
def see (id : Nat) : Visiting Unit := do
  let v ← get
  if v.seen[id]?.getD true then return
  let n ← nodeAt id
  if n.kind.isCollection then set { v with ahead := id :: v.ahead }
  else let _ ← (scalarAt v.nodes id : Except Damage Datum)
  modify fun v => { v with seen := v.seen.setIfInBounds id true }

/-- Change what a node holds. -/
def setEntries (id : Nat) (entries : List (Nat × Nat)) : Visiting Unit :=
  modify fun v =>
    { v with nodes := v.nodes.modify id fun n => { n with content := .mapping entries } }

/-- Split entries at the first that takes in others. -/
def splitMerge (nodes : Array Node) :
    List (Nat × Nat) → List (Nat × Nat) → Option (List (Nat × Nat) × Nat × List (Nat × Nat))
  | _, [] => none
  | before, (k, v) :: es =>
    if nodes[k]?.any fun n => n.kind = .merge then some (before.reverse, v, es)
    else splitMerge nodes ((k, v) :: before) es

/-- What stands for a mapping stands for it no more once its entries are needed: the key is then a
text as any other. -/
def plainKey (k : Nat) : Visiting Unit :=
  modify fun v =>
    { v with nodes := v.nodes.modify k fun n => if n.kind = .stand then ⟨.text, n.content⟩ else n }

mutual

/-- Let a mapping take in others, and give its entries. -/
def flatten : Nat → Nat → Visiting (List (Nat × Nat))
  | 0, _ => throw .malformed
  | fuel + 1, id => do
    let merged ← mergedEntries fuel id
    match (← nodeAt id).content with
    | .mapping es =>
      es.forM fun (k, _) => plainKey k
      let es := merged ++ es
      setEntries id es
      return es
    | _ => throw .malformed

/-- The entries that a mapping takes in, whose keys are dropped from it. -/
def mergedEntries : Nat → Nat → Visiting (List (Nat × Nat))
  | 0, _ => throw .malformed
  | fuel + 1, id => do
    match (← nodeAt id).content with
    | .mapping es =>
      match splitMerge (← get).nodes [] es with
      | none => return []
      | some (before, v, after) =>
        setEntries id (before ++ after)
        let first ← match (← nodeAt v).content with
          | .mapping _ => flatten fuel v
          | .sequence ids => sourceEntries fuel ids
          | .scalar _ => throw .malformed
        return first ++ (← mergedEntries fuel id)
    | _ => throw .malformed

/-- The entries of mappings in a sequence, those of the last first. -/
def sourceEntries : Nat → List Nat → Visiting (List (Nat × Nat))
  | 0, _ => throw .malformed
  | _, [] => return []
  | fuel + 1, id :: ids => do
    match (← nodeAt id).content with
    | .mapping _ =>
      let es ← flatten fuel id
      return (← sourceEntries fuel ids) ++ es
    | _ => throw .malformed

end

/-- See the entries of a mapping. -/
def seeEntries (fuel id : Nat) : Visiting Unit := do
  (← flatten fuel id).forM fun (k, v) => do
    see k
    if (← nodeAt k).kind.isCollection then throw .malformed
    see v

/-- See the one entry of a mapping. -/
def seePair (id : Nat) : Visiting Unit := do
  match (← nodeAt id).content with
  | .mapping [(k, v)] =>
    see k
    see v
  | _ => throw .malformed

/-- Go through a collection. -/
def goThrough (fuel id : Nat) : Visiting Unit := do
  let n ← nodeAt id
  match n.kind, n.content with
  | .mapping, _ | .set, _ => seeEntries fuel id
  | .sequence, .sequence ids => ids.forM see
  | .orderedMap, .sequence ids | .pairs, .sequence ids => ids.forM seePair
  | _, _ => throw .malformed

/-- Go through the collections ahead, those that were found first before others. -/
def goOn (fuel : Nat) : Nat → Visiting Unit
  | 0 => return
  | rounds + 1 => do
    match (← get).ahead.reverse with
    | [] => return
    | ids =>
      modify fun v => { v with ahead := [] }
      ids.forM (goThrough fuel)
      goOn fuel rounds

end Visit

/-- The datum of a node, of which collections inside of more than `depth` others are empty. -/
def datumAt (nodes : Array Node) : Nat → Nat → Datum
  | depth, id =>
    match nodes[id]? with
    | none => .nil
    | some n =>
      if !n.kind.isCollection then (scalarAt nodes id).toOption.getD .nil
      else match depth, n.content with
        | depth + 1, .sequence ids => .vector (ids.map (datumAt nodes depth))
        | depth + 1, .mapping es =>
          let es := es.map fun (k, v) => (datumAt nodes depth k, datumAt nodes depth v)
          let es : Entries Datum Datum := Entries.ofList es
          if n.kind = .set then .set es.keys else .map es
        | 0, .sequence _ => .vector []
        | 0, .mapping _ => if n.kind = .set then .set [] else .map []
        | _, .scalar _ => .nil

/-- Read a text, with collections inside of up to `depth` others. -/
def parse (depth : Nat) (s : String) : Except Damage Datum := do
  if !s.toList.all isPrintable then throw .malformed
  let (nodes, root) ← nodes s
  match root with
  | none => return .nil
  | some root =>
    let fuel := 2 * nodes.size + 4
    let start : Visit := { nodes, seen := Array.replicate nodes.size false }
    let (_, v) ← (do Visit.see root; Visit.goOn fuel (nodes.size + 1) : Visiting Unit).run start
    return datumAt v.nodes (depth + 1) root

end BuildFiles.Yaml
