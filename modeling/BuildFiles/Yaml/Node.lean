import BuildFiles.Yaml.Kind
import BuildFiles.Yaml.Layout

/-!
# Nodes of settings files

The nodes of a text, read off its tokens. A node may have a name, and an alias stands for the node
of a name, so that nodes make up a graph rather than a tree: collections refer to what they hold by
its number, and a collection can hold itself. Names are given once, and before they are used.
-/

namespace BuildFiles.Yaml

/-- What a node holds. -/
inductive Content where
  | scalar (text : String)
  | sequence (items : List Nat)
  | mapping (entries : List (Nat × Nat))

/-- A node. -/
structure Node where
  kind : Kind
  content : Content

/-- What reading nodes keeps. -/
structure Nodes where
  /-- the tokens ahead -/
  tokens : List Token
  /-- the damage after them -/
  damage : Damage
  nodes : Array Node := #[]
  /-- the nodes that have names -/
  names : Entries String Nat := []
  /-- what the handles of tags stand for -/
  handles : Entries String String := []

/-- Computations that read nodes. -/
abbrev Gathering := StateT Nodes (Except Damage)

namespace Nodes

/-! ## Tokens -/

/-- The token ahead. -/
def peek : Gathering Token := do
  let s ← get
  match s.tokens with
  | t :: _ => return t
  | [] => throw s.damage

/-- Go on over the token ahead. -/
def advance : Gathering Unit := modify fun s => { s with tokens := s.tokens.drop 1 }

/-- The mark is ahead, and is taken. -/
def takes (c : Char) : Gathering Bool := do
  if (← peek).isMark c then
    advance
    return true
  else return false

/-- A comma is ahead, and is taken. -/
def separator : Gathering Unit := do
  unless ← takes ',' do throw .malformed

/-! ## Nodes -/

/-- The name and the tag of a node. -/
structure Properties where
  name : Option String := none
  tag : Option String := none

/-- The node has neither. -/
def Properties.isEmpty (p : Properties) : Bool := p.name.isNone && p.tag.isNone

/-- The node is of the kind of its content. -/
def Properties.isUntagged (p : Properties) : Bool := p.tag.isNone || p.tag = some "!"

/-- The kind of a scalar. -/
def Properties.kindOfScalar (p : Properties) (text : String) (isPlain : Bool) : Kind :=
  match p.tag with
  | none => if isPlain then .ofPlain text else .text
  | some tag => if tag = "!" then .ofPlain text else .ofTag tag

/-- The kind of a collection, which is another only if a tag says so. -/
def Properties.kindOr (p : Properties) (k : Kind) : Kind :=
  match p.tag with
  | some tag => if tag = "!" then k else .ofTag tag
  | none => k

/-- Add a node. Its name may not be that of another. -/
def add (p : Properties) (n : Node) : Gathering Nat := do
  let s ← get
  let id := s.nodes.size
  match p.name with
  | some name =>
    if s.names.has name then throw .malformed
    set { s with nodes := s.nodes.push n, names := s.names.insert name id }
  | none => set { s with nodes := s.nodes.push n }
  return id

/-- Say what a node holds. -/
def fill (id : Nat) (c : Content) : Gathering Nat := do
  modify fun s => { s with nodes := s.nodes.modify id fun n => { n with content := c } }
  return id

/-- A node for nothing. -/
def nothing : Gathering Nat := add {} ⟨.nothing, .scalar ""⟩

/-- What a tag is, given its handle. -/
def fullTag (handle : Option String) (suffix : String) : Gathering String := do
  match handle with
  | none => return suffix
  | some h =>
    match (← get).handles.get? h with
    | some text => return text ++ suffix
    | none => throw .malformed

/-- The name and the tag that are ahead, in either order. -/
def properties : Gathering Properties := do
  match ← peek with
  | .anchor name =>
    advance
    match ← peek with
    | .tag handle suffix =>
      advance
      return ⟨some name, some (← fullTag handle suffix)⟩
    | _ => return ⟨some name, none⟩
  | .tag handle suffix =>
    advance
    match ← peek with
    | .anchor name =>
      advance
      return ⟨some name, some (← fullTag handle suffix)⟩
    | _ => return ⟨none, some (← fullTag handle suffix)⟩
  | _ => return {}

/-- Where a node stands. -/
inductive Place where
  /-- between brackets -/
  | flow
  /-- where collections by indentation may start -/
  | block
  /-- also where a sequence may go on at the column of what is around it -/
  | flush
  deriving DecidableEq

/-- Nothing is ahead where a value is left out in a mapping by indentation. -/
def endsEntry : Token → Bool
  | .key => true
  | .value => true
  | .collectionEnd => true
  | _ => false

/-- Nothing is ahead where an item is left out in a sequence by indentation, which may be at the
column of what is around it if it is `flush`. -/
def endsItem (flush : Bool) : Token → Bool
  | .collectionEnd => true
  | .key => flush
  | .value => flush
  | t => t.isMark '-'

/-- Nothing is ahead where something is left out between brackets. -/
def endsFlow (closer : Char) (t : Token) : Bool := t.isMark ',' || t.isMark closer

/-- The mark of a value is ahead. -/
def startsValue : Token → Bool
  | .value => true
  | _ => false

mutual

/-- A node. -/
def node : Nat → Place → Gathering Nat
  | 0, _ => throw .malformed
  | fuel + 1, place => do
    match ← peek with
    | .alias name =>
      advance
      match (← get).names.get? name with
      | some id => return id
      | none => throw .malformed
    | _ =>
      let p ← properties
      match ← peek with
      | .scalar text isPlain =>
        advance
        add p ⟨p.kindOfScalar text isPlain, .scalar text⟩
      | .mark '[' =>
        let id ← add p ⟨p.kindOr .sequence, .sequence []⟩
        advance
        fill id (.sequence (← flowItems fuel true))
      | .mark '\x7b' =>
        let id ← add p ⟨p.kindOr .mapping, .mapping []⟩
        advance
        fill id (.mapping (← flowEntries fuel true))
      | t =>
        if place = .flush && t.isMark '-' then
          let id ← add p ⟨p.kindOr .sequence, .sequence []⟩
          fill id (.sequence (← items fuel true))
        else match t, place with
          | .sequenceStart, .block | .sequenceStart, .flush =>
            let id ← add p ⟨p.kindOr .sequence, .sequence []⟩
            advance
            fill id (.sequence (← items fuel false))
          | .mappingStart, .block | .mappingStart, .flush =>
            let id ← add p ⟨p.kindOr .mapping, .mapping []⟩
            advance
            fill id (.mapping (← entries fuel))
          | _, _ =>
            if p.isEmpty then throw .malformed
            else add p ⟨p.kindOfScalar "" p.isUntagged, .scalar ""⟩

/-- A node, or nothing if it is left out. -/
def nodeUnless (isOut : Token → Bool) (place : Place) : Nat → Gathering Nat
  | 0 => throw .malformed
  | fuel + 1 => do
    if isOut (← peek) then nothing else node fuel place

/-- The items of a sequence by indentation. -/
def items : Nat → Bool → Gathering (List Nat)
  | 0, _ => throw .malformed
  | fuel + 1, flush => do
    if ← takes '-' then
      let item ← nodeUnless (endsItem flush) .block fuel
      return item :: (← items fuel flush)
    else if flush then return []
    else match ← peek with
      | .collectionEnd =>
        advance
        return []
      | _ => throw .malformed

/-- The entries of a mapping by indentation. -/
def entries : Nat → Gathering (List (Nat × Nat))
  | 0 => throw .malformed
  | fuel + 1 => do
    match ← peek with
    | .key =>
      advance
      let k ← nodeUnless endsEntry .flush fuel
      let v ←
        if startsValue (← peek) then do
          advance
          nodeUnless endsEntry .flush fuel
        else nothing
      return (k, v) :: (← entries fuel)
    | .collectionEnd =>
      advance
      return []
    | _ => throw .malformed

/-- The key and the value of an entry between brackets, after the mark of the key. -/
def flowPair (closer : Char) : Nat → Gathering (Nat × Nat)
  | 0 => throw .malformed
  | fuel + 1 => do
    let k ← nodeUnless (fun t => startsValue t || endsFlow closer t) .flow fuel
    let v ←
      if startsValue (← peek) then do
        advance
        nodeUnless (endsFlow closer) .flow fuel
      else nothing
    return (k, v)

/-- The items of a sequence between brackets, of which the first may be next. -/
def flowItems : Nat → Bool → Gathering (List Nat)
  | 0, _ => throw .malformed
  | fuel + 1, isFirst => do
    if ← takes ']' then return []
    unless isFirst do separator
    match ← peek with
    | .key =>
      let id ← add {} ⟨.mapping, .mapping []⟩
      advance
      let item ← fill id (.mapping [← flowPair ']' fuel])
      return item :: (← flowItems fuel false)
    | t =>
      if t.isMark ']' then
        advance
        return []
      else
        let item ← node fuel .flow
        return item :: (← flowItems fuel false)

/-- The entries of a mapping between brackets, of which the first may be next. -/
def flowEntries : Nat → Bool → Gathering (List (Nat × Nat))
  | 0, _ => throw .malformed
  | fuel + 1, isFirst => do
    if ← takes '\x7d' then return []
    unless isFirst do separator
    match ← peek with
    | .key =>
      advance
      let e ← flowPair '\x7d' fuel
      return e :: (← flowEntries fuel false)
    | t =>
      if t.isMark '\x7d' then
        advance
        return []
      else
        let k ← node fuel .flow
        let v ← nothing
        return (k, v) :: (← flowEntries fuel false)

end

/-! ## Documents -/

/-- What the handles of tags stand for without a directive. -/
def knownHandles : Entries String String := [("!", "!"), ("!!", tagStart)]

/-- The directives ahead, at most `fuel`, where the version was told before if `versioned`. -/
def directives : Nat → Bool → Gathering Unit
  | 0, _ => throw .malformed
  | fuel + 1, versioned => do
    match ← peek with
    | .version major =>
      advance
      if versioned || major ≠ 1 then throw .malformed
      directives fuel true
    | .handle name text =>
      advance
      let s ← get
      if s.handles.has name then throw .malformed
      set { s with handles := s.handles.insert name text }
      directives fuel versioned
    | .remark =>
      advance
      directives fuel versioned
    | _ => return

/-- Nothing is in a document here. -/
def endsDocument : Token → Bool
  | .version _ => true
  | .handle _ _ => true
  | .remark => true
  | .documentStart => true
  | .documentEnd => true
  | .ending => true
  | _ => false

/-- Go on over the marks of the end of a document, at most `fuel`. -/
def documentEnds : Nat → Gathering Unit
  | 0 => throw .malformed
  | fuel + 1 => do
    match ← peek with
    | .documentEnd =>
      advance
      documentEnds fuel
    | _ => return

/-- Only the end of the text is ahead. Directives for another document are read before it is found
to be one too many. -/
def textEnds (fuel : Nat) : Gathering Unit := do
  documentEnds fuel
  match ← peek with
  | .ending => return
  | _ =>
    modify fun s => { s with handles := [] }
    directives fuel false
    throw .malformed

/-- The node of a document that starts with directives or a mark. -/
def markedDocument (fuel : Nat) : Gathering Nat := do
  directives fuel false
  modify fun s =>
    { s with handles := knownHandles.foldl (fun h e => h.insertNew e.1 e.2) s.handles }
  match ← peek with
  | .documentStart =>
    advance
    nodeUnless endsDocument .block fuel
  | _ => throw .malformed

/-- The node of the one document of a text; none if there is no document. -/
def document (fuel : Nat) : Gathering (Option Nat) := do
  match ← peek with
  | .ending => return none
  | t =>
    let root ←
      match t with
      | .version _ | .handle _ _ | .remark | .documentStart => markedDocument fuel
      | _ => do
        modify fun s => { s with handles := knownHandles }
        node fuel .block
    textEnds fuel
    return some root

end Nodes

/-- The nodes of a text, and which of them is the whole, if it is not empty. -/
def nodes (s : String) : Except Damage (Array Node × Option Nat) := do
  let (tokens, damage) := tokens s
  let fuel := 4 * tokens.length + 8
  let (root, s) ← (Nodes.document fuel).run { tokens, damage }
  return (s.nodes, root)

end BuildFiles.Yaml
