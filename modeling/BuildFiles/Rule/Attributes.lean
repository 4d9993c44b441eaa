import BuildFiles.Datum.Key
import BuildFiles.Datum.Display
import BuildFiles.Text.Basic
import BuildFiles.Fault

/-!
# Attributes of rules

The attributes that a rule is called with, in order. `merge` lays several maps of attributes over
each other: the items of lists are joined, any other value is replaced by a later one. Some
attributes hold labels; `normalize` brings those in order, and `firstBadLabel?` finds a value in
them that is no label.
-/

namespace BuildFiles

/-- The attributes of a rule. -/
abbrev Attributes := Entries String Datum

namespace Attributes

variable {κ : Type} [BEq κ]

/-- Attributes as a map from their names. -/
def toDatum (a : Attributes) : Datum := .map (a.map fun (k, v) => (.str k, v))

/-- A value as a layer gives it: a list is the vector of its items. -/
def layerValue (d : Datum) : Datum :=
  match d.sequence? with
  | some xs => .vector xs
  | none => d

/-- A value of a layer over the one below. -/
def stacked (below : Option Datum) (value : Datum) : Datum :=
  match below, value.sequence? with
  | some (.vector xs), some ys => .vector (xs ++ ys)
  | _, _ => layerValue value

/-- One value of a layer laid over what lies below. -/
def put (below : Entries κ Datum) (key : κ) (value : Datum) : Entries κ Datum :=
  below.insert key (stacked (below.get? key) value)

/-- One layer laid over what lies below. -/
def lay (below layer : Entries κ Datum) : Entries κ Datum :=
  layer.foldl (fun acc e => put acc e.1 e.2) below

/-- The layers laid over each other, the first at the bottom. -/
def merge (layers : List (Entries κ Datum)) : Entries κ Datum := layers.foldl lay []

/-- The attributes that hold labels. -/
def labelAttributes : List String := ["deps", "runtime_deps"]

/-- What a label starts with. -/
def labelStarts : List String := ["@", "//", ":"]

/-- A text that starts as a label does. -/
def isLabel : Datum → Bool
  | .str s => labelStarts.any (Text.startsWith s ·)
  | _ => false

/-- The members of a value of labels, each once, in the order of their texts if asked. -/
def normalizedLabels (sort : Bool) (value : Datum) : Except Fault Datum :=
  match value.members? with
  | none => .error .shapeless
  | some xs =>
    match Datum.elementsOf? xs with
    | none => .error (.reading .unkeyable)
    | some ys => (if sort then Datum.sortedByText ys else .ok ys).map .vector

/-- The value at a key with its labels in order, if it is there. -/
def normalizeAt (sort : Bool) (attributes : Entries κ Datum) (key : κ) :
    Except Fault (Entries κ Datum) :=
  match attributes.get? key with
  | none => .ok attributes
  | some value => (normalizedLabels sort value).map (attributes.insert key ·)

/-- The labels at some keys in order, each once. -/
def normalizeAll (keys : List κ) (attributes : Entries κ Datum) (sort : Bool) :
    Except Fault (Entries κ Datum) :=
  keys.foldlM (normalizeAt sort) attributes

/-- All labels in order, each once. -/
def normalize (attributes : Attributes) (sort : Bool) : Except Fault Attributes :=
  normalizeAll labelAttributes attributes sort

/-- The first value that is no label among the labels of an attribute. -/
def badLabelAt? (attributes : Attributes) (key : String) : Except Fault (Option Datum) :=
  match attributes.get? key with
  | none => .ok none
  | some value =>
    match value.members? with
    | none => .error .shapeless
    | some xs => .ok (xs.find? fun x => !isLabel x)

end Attributes

end BuildFiles
