import BuildFiles.Entries
import BuildFiles.Yaml.Indented
import BuildFiles.Yaml.Quoted
import BuildFiles.Yaml.Token
import BuildFiles.Yaml.Unquoted

/-!
# The layout of settings files

Splitting a text into tokens. Collections by indentation have no marks of their own: they start
where an item or a key stands to the right of what is around them, and end where a line starts to
the left. That something is the key of a mapping is only told by the colon after it. It has to be in
one line and within 1024 characters of it, and its mark is then put before it.

A damaged text has tokens up to the damage. What could still turn out to be a key then counts as not
read.
-/

namespace BuildFiles.Yaml

/-- A token that may turn out to be the start of a key. -/
structure Candidate where
  /-- how many tokens are before it -/
  token : Nat
  /-- nothing but a key may stand here -/
  isRequired : Bool
  start : Cursor

/-- What splitting a text into tokens keeps. -/
structure Layout where
  cursor : Cursor
  tokens : Array Token := #[]
  /-- how many brackets are open -/
  level : Nat := 0
  /-- the least column inside of the collection that is open by indentation -/
  margin : Nat := 0
  /-- those of the collections around it, the innermost first -/
  margins : List Nat := []
  /-- a key may start here -/
  allowsKey : Bool := true
  /-- candidates for keys by the number of brackets about them -/
  candidates : Entries Nat Candidate := []

/-- Computations that split a text into tokens. -/
abbrev Splitting := StateT Layout (Except Damage)

namespace Layout

/-- Add a token. -/
def emit (t : Token) : Splitting Unit :=
  modify fun l => { l with tokens := l.tokens.push t }

/-- Go on to a position. -/
def moveTo (c : Cursor) : Splitting Unit := modify fun l => { l with cursor := c }

/-- Put a token before others. -/
def insertToken (place : Nat) (t : Token) : Splitting Unit :=
  modify fun l =>
    { l with tokens := l.tokens.extract 0 place ++ #[t] ++ l.tokens.extract place l.tokens.size }

/-- Whether keys may start from here on. -/
def allowKey (allows : Bool) : Splitting Unit := modify fun l => { l with allowsKey := allows }

/-! ## Candidates -/

/-- How many characters a key may have. -/
def maxKeySize : Nat := 1024

/-- The candidate is too far back to be a key. -/
def isStale (l : Layout) (k : Candidate) : Bool :=
  k.start.line ≠ l.cursor.line || k.start.index + maxKeySize < l.cursor.index

/-- Drop the candidates that cannot be keys any more. -/
def dropStale : Splitting Unit := do
  let l ← get
  if l.candidates.any fun (_, k) => l.isStale k && k.isRequired then throw .malformed
  set { l with candidates := l.candidates.filter fun (_, k) => !l.isStale k }

/-- Drop the candidate in the brackets that are open. -/
def dropCandidate : Splitting Unit := do
  let l ← get
  if (l.candidates.get? l.level).any fun k => k.isRequired then throw .malformed
  set { l with candidates := l.candidates.filter fun (level, _) => level ≠ l.level }

/-- The next token is a candidate, if a key may start here. -/
def addCandidate : Splitting Unit := do
  let l ← get
  if l.allowsKey then
    dropCandidate
    let isRequired := l.level == 0 && l.margin == l.cursor.column + 1
    modify fun m =>
      { m with candidates := m.candidates ++ [(m.level, ⟨m.tokens.size, isRequired, m.cursor⟩)] }

/-- How many tokens there are before the first candidate. -/
def settledTokens (l : Layout) : Nat :=
  l.candidates.foldl (fun n (_, k) => min n k.token) l.tokens.size

/-! ## Indentation -/

/-- Close collections by indentation until the margin is at most the given one. -/
def closeTo (margin : Nat) : List Nat → Splitting Unit
  | [] => modify fun l => { l with margins := [] }
  | outer :: margins => do
    if margin < (← get).margin then
      modify fun l => { l with margin := outer }
      emit .collectionEnd
      closeTo margin margins
    else modify fun l => { l with margins := outer :: margins }

/-- Close collections by indentation until the margin is at most the given one, unless brackets are
open. -/
def unwind (margin : Nat) : Splitting Unit := do
  let l ← get
  if l.level = 0 then closeTo margin l.margins

/-- Open a collection by indentation at a column, if it is to the right of those that are open, with
its token in a place. -/
def indentTo (column place : Nat) (t : Token) : Splitting Unit := do
  let l ← get
  if l.level = 0 && l.margin ≤ column then
    insertToken place t
    modify fun m => { m with margin := column + 1, margins := m.margin :: m.margins }

/-! ## Tokens -/

/-- Go on over gaps and comments, at most `fuel`. Where a line starts, a key may. -/
def skipGaps : Nat → Splitting Unit
  | 0 => return
  | fuel + 1 => do
    let l ← get
    let c := l.cursor.skipComment
    if c.atBreak then
      moveTo c.next
      if l.level = 0 then allowKey true
      skipGaps fuel
    else moveTo c

/-- Go on over a mark with its token. -/
def take (size : Nat) (t : Token) : Splitting Unit := do
  emit t
  moveTo ((← get).cursor.skip size)

/-- The end of the text. -/
def finish : Splitting Unit := do
  unwind 0
  dropCandidate
  modify fun l => { l with candidates := [], allowsKey := false }
  emit .ending

/-- A token between documents, and what follows it. -/
def border (t : Token) (after : Cursor) : Splitting Unit := do
  emit t
  moveTo after

/-- Close all collections by indentation before a token between documents. -/
def closeDocument : Splitting Unit := do
  unwind 0
  dropCandidate
  allowKey false

/-- An opening bracket, which may start a key. -/
def openBracket (c : Char) : Splitting Unit := do
  addCandidate
  modify fun l => { l with level := l.level + 1, allowsKey := true }
  take 1 (.mark c)

/-- A closing bracket. -/
def closeBracket (c : Char) : Splitting Unit := do
  dropCandidate
  modify fun l => { l with level := l.level - 1, allowsKey := false }
  take 1 (.mark c)

/-- A comma between brackets. -/
def comma : Splitting Unit := do
  allowKey true
  dropCandidate
  take 1 (.mark ',')

/-- A key or an item may start here, unless brackets are open. -/
def expectAllowed : Splitting Unit := do
  let l ← get
  if l.level = 0 && !l.allowsKey then throw .malformed

/-- The mark of an item. -/
def item : Splitting Unit := do
  expectAllowed
  indentTo (← get).cursor.column (← get).tokens.size .sequenceStart
  allowKey true
  dropCandidate
  take 1 (.mark '-')

/-- The mark of a key. -/
def key : Splitting Unit := do
  expectAllowed
  indentTo (← get).cursor.column (← get).tokens.size .mappingStart
  allowKey ((← get).level = 0)
  dropCandidate
  take 1 .key

/-- The mark of a value; if there is a candidate, it is the key. -/
def value : Splitting Unit := do
  let l ← get
  match l.candidates.get? l.level with
  | some k =>
    set { l with candidates := l.candidates.filter fun (level, _) => level ≠ l.level }
    insertToken k.token .key
    indentTo k.start.column k.token .mappingStart
    allowKey false
  | none =>
    expectAllowed
    indentTo l.cursor.column l.tokens.size .mappingStart
    allowKey (l.level = 0)
    dropCandidate
  take 1 .value

/-- A token that may start a key, and after which none may start in its line. -/
def keyLike (read : Cursor → Except Damage (Token × Cursor)) : Splitting Unit := do
  addCandidate
  allowKey false
  let (t, after) ← (read (← get).cursor : Except Damage (Token × Cursor))
  emit t
  moveTo after

/-- A scalar in lines of its own. -/
def indentedScalar : Splitting Unit := do
  allowKey true
  dropCandidate
  let l ← get
  let (s, after) ← (indented l.margin l.cursor : Except Damage (String × Cursor))
  emit (.scalar s false)
  moveTo after

/-- A scalar without quotes. -/
def plainScalar : Splitting Unit := do
  addCandidate
  let l ← get
  let u := unquoted (0 < l.level) l.margin l.cursor
  allowKey u.endsLine
  emit (.scalar u.text true)
  moveTo u.after

/-- The token that starts with a character; false at the end of the text. -/
def tokenAt (c : Char) : Splitting Unit := do
  let l ← get
  let inFlow := 0 < l.level
  let rest := l.cursor.rest
  let isMark := startsGap (rest.drop 1)
  if c = '%' && l.cursor.column = 0 then
    closeDocument
    let (t, after) ← (directive l.cursor : Except Damage (Token × Cursor))
    border t after
  else if l.cursor.atMark Cursor.startMark then
    closeDocument
    border .documentStart (l.cursor.skip 3)
  else if l.cursor.atMark Cursor.endMark then
    closeDocument
    border .documentEnd (l.cursor.skip 3)
  else if c = '[' || c = '\x7b' then openBracket c
  else if c = ']' || c = '\x7d' then closeBracket c
  else if c = ',' then comma
  else if c = '-' && isMark then item
  else if c = '?' && (inFlow || isMark) then key
  else if c = ':' && (inFlow || isMark) then value
  else if c = '*' then keyLike fun c => return ((← nodeName c).map .alias id)
  else if c = '&' then keyLike fun c => return ((← nodeName c).map .anchor id)
  else if c = '!' then keyLike tag
  else if (c = '|' || c = '>') && !inFlow then indentedScalar
  else if c = '\'' || c = '"' then keyLike fun c => return ((← quoted c).map (.scalar · false) id)
  else if startsUnquoted inFlow rest then plainScalar
  else throw .malformed

/-- The next tokens; true at the end of the text. -/
def step : Splitting Bool := do
  skipGaps ((← get).cursor.rest.length + 1)
  dropStale
  let l ← get
  unwind (l.cursor.column + 1)
  match l.cursor.head? with
  | none =>
    finish
    return true
  | some c =>
    tokenAt c
    return false

/-- The tokens of a text from here on, over at most `fuel` steps, and the damage after them. -/
def run : Nat → Layout → List Token × Damage
  | 0, l => (l.tokens.toList, .malformed)
  | fuel + 1, l =>
    match dropStale l with
    | .error e => (l.tokens.toList, e)
    | .ok (_, l) =>
      match step l with
      | .error e => (l.tokens.toList.take l.settledTokens, e)
      | .ok (true, l) => (l.tokens.toList, .malformed)
      | .ok (false, l) => run fuel l

end Layout

/-- The tokens of a text, and the damage after them. -/
def tokens (s : String) : List Token × Damage :=
  let c : Cursor := ⟨s.toList, 0, 0, 0⟩
  let start := if c.head? = some orderMark then c.next else c
  Layout.run (s.length + 1) { cursor := start }

end BuildFiles.Yaml
