import BuildFiles.Reader.Numeral
import BuildFiles.Yaml.Cursor
import BuildFiles.Yaml.Damage

/-!
# Tokens of settings files

What the text of a settings file is made of: marks, scalars, directives, and the names that nodes
have and are of. This module reads the tokens that are names; scalars have modules of their own.
-/

namespace BuildFiles.Yaml

/-- A token. -/
inductive Token where
  /-- a directive for the version of the language, by its first number -/
  | version (major : Nat)
  /-- a directive for what a handle of tags stands for -/
  | handle (name text : String)
  /-- a directive that says nothing here -/
  | remark
  | documentStart
  | documentEnd
  | ending
  /-- the start of a sequence by indentation -/
  | sequenceStart
  /-- the start of a mapping by indentation -/
  | mappingStart
  /-- the end of a collection by indentation -/
  | collectionEnd
  /-- a bracket, a comma, or the mark of an item -/
  | mark (c : Char)
  | key
  | value
  | alias (name : String)
  | anchor (name : String)
  | tag (handle : Option String) (suffix : String)
  | scalar (text : String) (isPlain : Bool)

/-- The token is a mark. -/
def Token.isMark (t : Token) (c : Char) : Bool :=
  match t with
  | .mark d => c = d
  | _ => false

/-! ## Names -/

/-- A character of a name. -/
def isWordChar (c : Char) : Bool := c.isAlphanum || c == '-' || c == '_'

/-- The word that starts here, if it is one, and what follows. -/
def word? (c : Cursor) : Option (String × Cursor) :=
  match c.rest.takeWhile isWordChar with
  | [] => none
  | cs => some (String.ofList cs, c.skip cs.length)

/-- What may follow the name of a node, besides a gap. -/
def afterName : List Char := "?:,]\x7d%@\x60".toList

/-- The name of a node after its mark. -/
def nodeName (c : Cursor) : Except Damage (String × Cursor) :=
  match word? c.next with
  | some (name, after) =>
    if startsGap after.rest || after.head?.any afterName.contains then .ok (name, after)
    else .error .malformed
  | none => .error .malformed

/-! ## Tags -/

/-- A character of a tag. -/
def isTagChar (c : Char) : Bool := c.isAlphanum || "-;/?:@&=+$,_.!~*'()[]".contains c

/-- Bytes that are written by their numbers, and what follows. -/
def escapedBytes : Nat → Cursor → Except Damage (List UInt8 × Cursor)
  | 0, c => .ok ([], c)
  | fuel + 1, c =>
    match c.rest with
    | '%' :: rest => do
      let digits := rest.take 2
      if digits.length < 2 || !Reader.isNumeralOf 16 digits then throw .malformed
      let (bytes, after) ← escapedBytes fuel (c.skip 3)
      return ((Reader.digitsValue 16 digits).toUInt8 :: bytes, after)
    | _ => .ok ([], c)

/-- The rest of a tag after the characters `soFar`, the last first, and what follows. -/
def tagFrom : Nat → List Char → Cursor → Except Damage (String × Cursor)
  | 0, _, _ => .error .malformed
  | fuel + 1, soFar, c =>
    let size := (c.rest.takeWhile isTagChar).length
    let soFar := (c.rest.take size).reverse ++ soFar
    let c := c.skip size
    if c.head? = some '%' then do
      let (bytes, after) ← escapedBytes (c.rest.length + 1) c
      match String.fromUTF8? bytes.toByteArray with
      | some s => tagFrom fuel (s.toList.reverse ++ soFar) after
      | none => throw .malformed
    else if soFar.isEmpty then .error .malformed
    else .ok (String.ofList soFar.reverse, c)

/-- The characters of a tag, and what follows. -/
def tagText (c : Cursor) : Except Damage (String × Cursor) := tagFrom (c.rest.length + 1) [] c

/-- The handle of a tag, which stands between exclamation marks, and what follows. -/
def tagHandle (c : Cursor) : Except Damage (String × Cursor) :=
  match c.rest with
  | '!' :: ' ' :: _ => .ok ("!", c.next)
  | '!' :: rest =>
    let body := rest.takeWhile isWordChar
    if (rest.drop body.length).head? = some '!' then
      .ok (String.ofList ('!' :: body ++ ['!']), c.skip (body.length + 2))
    else .error .malformed
  | _ => .error .malformed

/-- The tag that starts here, and what follows. -/
def tag (c : Cursor) : Except Damage (Token × Cursor) := do
  let rest := c.rest.drop 1
  let (token, after) ← do
    if rest.head? = some '<' then
      let (suffix, after) ← tagText (c.skip 2)
      if after.head? ≠ some '>' then throw .malformed
      pure (Token.tag none suffix, after.next)
    else if startsGap rest then pure (Token.tag none "!", c.next)
    else
      let named := (rest.takeWhile fun x => x != ' ' && !isBreak x).contains '!'
      let (handle, after) ← if named then tagHandle c else pure ("!", c.next)
      let (suffix, after) ← tagText after
      pure (Token.tag (some handle) suffix, after)
  if startsPlainGap after.rest then return (token, after) else throw .malformed

/-! ## Directives -/

/-- The whole number that starts here, and what follows. -/
def wholeNumber (c : Cursor) : Except Damage (Nat × Cursor) :=
  let digits := c.rest.takeWhile Char.isDigit
  if digits.isEmpty then .error .malformed
  else if Reader.isTooLong 10 digits then .error (.scalar .noValue)
  else .ok (Reader.digitsValue 10 digits, c.skip digits.length)

/-- What a directive of a name says, and what follows. -/
def directiveValue (name : String) (c : Cursor) : Except Damage (Token × Cursor) := do
  if name = "YAML" then
    let (major, after) ← wholeNumber c.skipSpaces
    if after.head? ≠ some '.' then throw .malformed
    let (_, after) ← wholeNumber after.next
    if startsPlainGap after.rest then return (.version major, after) else throw .malformed
  else if name = "TAG" then
    let (handle, after) ← tagHandle c.skipSpaces
    if after.head? ≠ some ' ' then throw .malformed
    let (text, after) ← tagText after.skipSpaces
    if startsPlainGap after.rest then return (.handle handle text, after) else throw .malformed
  else return (.remark, c.skipLine)

/-- The directive that starts here, and the next line. -/
def directive (c : Cursor) : Except Damage (Token × Cursor) := do
  match word? c.next with
  | none => throw .malformed
  | some (name, after) =>
    if !startsPlainGap after.rest then throw .malformed
    let (token, after) ← directiveValue name after
    let after := after.skipComment
    if after.rest.isEmpty || after.atBreak then return (token, after.next) else throw .malformed

end BuildFiles.Yaml
