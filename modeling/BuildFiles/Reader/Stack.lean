import BuildFiles.Reader.Lexeme
import BuildFiles.Datum.Key

/-!
# Forms under construction

The forms that a reading is inside of, the innermost first, each as a `Frame` that waits for what is
missing of it. A lexeme opens a frame, or completes an item, which `deliver` hands to the innermost
frame; a frame that this completes hands on an item of its own. `push` is the step that a lexeme
makes.
-/

namespace BuildFiles.Reader

/-- What a completed form gives to the one around it. -/
inductive Item where
  | form (d : Datum)
  /-- forms that a collection takes in one by one -/
  | splice (ds : List Datum)
  | nothing

/-- A form under construction. -/
inductive Frame where
  /-- a collection, with the text after its opening and its items so far, the last first -/
  | collecting (b : Bracket) (opened : List Char) (items : List Datum)
  | wrapping (head : String)
  | metadata
  /-- what the metadata is attached to comes next -/
  | target (metadata : Datum)
  | discard
  | tag
  /-- the form under the tag comes next -/
  | tagged (tag : Name) (attached : List (Datum × Datum))

/-- A reading between two lexemes: a form that stands alone is complete, or forms are pending. -/
inductive Progress where
  | complete (d : Datum)
  | pending (frames : List Frame)

/-- The forms two by two. -/
def pairs : List Datum → List (Datum × Datum)
  | a :: b :: rest => (a, b) :: pairs rest
  | _ => []

/-- The map of keys and values that alternate; `rest` is the text after it. -/
def mapOf (items : List Datum) (rest : List Char) : Except Stop (Entries Datum Datum) :=
  if items.length % 2 = 1 then .error (.malformed .oddMap rest)
  else
    match Datum.entriesOf? ((pairs items).map fun (k, v) => (k.frozen, v)) with
    | some entries => .ok entries
    | none => .error (.worthless .unkeyable)

/-- The set of the items. -/
def setOf (items : List Datum) : Except Stop Datum :=
  match Datum.elementsOf? (items.map Datum.frozen) with
  | some elements => .ok (.set elements)
  | none => .error (.worthless .unkeyable)

/-- A keyword that has no name space, put into the given one. An empty one and one that is only a
colon leave it alone. -/
def qualifiedKey (space : String) : Datum → Datum
  | .keyword ⟨none, base⟩ =>
    if space = "" ∨ space = ":" then .keyword (.plain base) else .keyword ⟨some space, base⟩
  | d => d

/-- The item of a reader conditional: the form after the first of the features that is on. -/
def select (features : List String) (splicing : Bool) (rest : List Char) :
    List (Datum × Datum) → Except Stop Item
  | [] => .ok .nothing
  | (feature, form) :: branches =>
    match feature.keywordName? with
    | none => .error (.malformed .featureNotKeyword rest)
    | some name =>
      if features.contains name.base ∨ name.base = "default" then
        if splicing then
          match form.sequence? with
          | some items => .ok (.splice items)
          | none => .error (.malformed .spliceOfNoSequence rest)
        else .ok (.form form)
      else select features splicing rest branches

/-- The item of a bracket that is closed; `rest` is the text after it. -/
def closed (features : List String) (b : Bracket) (items : List Datum) (rest : List Char) :
    Except Stop Item :=
  match b with
  | .round => .ok (.form (.list items))
  | .square => .ok (.form (.vector items))
  | .function => .ok (.form (.list [.sym "fn*", .list items]))
  | .set => (setOf items).map .form
  | .curly => (mapOf items rest).map fun es => .form (.map es)
  | .qualifying space =>
    (mapOf items rest).map fun es =>
      .form (.map (Entries.ofList (es.map fun (k, v) => (qualifiedKey space k, v))))
  | .conditional splicing =>
    if items.length % 2 = 1 then .error (.malformed .oddConditional rest)
    else select features splicing rest (pairs items)

/-- Metadata as a map: a symbol or text is the tag, a keyword is set. -/
def metadataEntries? : Datum → Option (List (Datum × Datum))
  | .map es => some es
  | .keyword n => some [(.keyword n, .bool true)]
  | .symbol n attached => some [(.key "tag", .symbol n attached)]
  | .str s => some [(.key "tag", .str s)]
  | _ => none

/-- The item that metadata is attached to; only a symbol keeps it. -/
def attach (metadata : Datum) (target : Item) (rest : List Char) : Except Stop Item :=
  match metadataEntries? metadata with
  | none => .error (.malformed .badMetadata rest)
  | some es =>
    match target with
    | .form (.symbol n attached) => .ok (.form (.symbol n (Entries.insertAll attached es)))
    | other => .ok other

/-- The datum that a form holds in the place of an item. -/
def Item.datum : Item → Datum
  | .form d => d
  | .splice ds => .splice ds
  | .nothing => .nil

/-- Hand an item to the innermost frame; `rest` is the text after it. -/
def deliver (rest : List Char) : Item → List Frame → Except Stop Progress
  | .nothing, frames => .ok (.pending frames)
  | .form d, [] => .ok (.complete d)
  | .splice _, [] => .error (.malformed .looseSplice rest)
  | .form d, .collecting b opened items :: frames =>
    .ok (.pending (.collecting b opened (d :: items) :: frames))
  | .splice ds, .collecting b opened items :: frames =>
    .ok (.pending (.collecting b opened (ds.reverse ++ items) :: frames))
  | item, .wrapping head :: frames =>
    deliver rest (.form (.list [.sym head, item.datum])) frames
  | item, .metadata :: frames => .ok (.pending (.target item.datum :: frames))
  | item, .target metadata :: frames =>
    match attach metadata item rest with
    | .ok result => deliver rest result frames
    | .error e => .error e
  | _, .discard :: frames => .ok (.pending frames)
  | item, .tag :: frames =>
    match item.datum with
    | .symbol n attached => .ok (.pending (.tagged n attached :: frames))
    | _ => .error (.malformed .badTag rest)
  | item, .tagged n attached :: frames =>
    deliver rest (.form (.tagged n attached item.datum)) frames

/-- Close the innermost frame, which has to be a bracket of that closer. -/
def close (features : List String) (delimiter : Char) (rest : List Char) :
    List Frame → Except Stop Progress
  | .collecting b _ items :: frames =>
    if b.closer = delimiter then
      match closed features b items.reverse rest with
      | .ok item => deliver rest item frames
      | .error e => .error e
    else .error (.malformed (.unmatchedDelimiter delimiter) rest)
  | _ => .error (.malformed (.unmatchedDelimiter delimiter) rest)

/-- The step that a lexeme makes; `rest` is the text after it. -/
def push (features : List String) (rest : List Char) (frames : List Frame) :
    Lexeme → Except Stop Progress
  | .atom d => deliver rest (.form d) frames
  | .opening b => .ok (.pending (.collecting b rest [] :: frames))
  | .closing delimiter => close features delimiter rest frames
  | .wrapping head => .ok (.pending (.wrapping head :: frames))
  | .metadata => .ok (.pending (.metadata :: frames))
  | .discard => .ok (.pending (.discard :: frames))
  | .tag => .ok (.pending (.tag :: frames))
  | .gap => .ok (.pending frames)

/-- Why the text may not end while the frames are pending; none if it may. -/
def endFault? : List Frame → Option Stop
  | [] => none
  | .collecting b opened _ :: _ => some (.malformed (.unclosed b.closer) opened)
  | _ => some (.malformed .endOfInput [])

end BuildFiles.Reader
