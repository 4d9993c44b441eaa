import BuildFiles.Xml.Remark

/-!
# Tokens of declarations

The declarations of the type of a document are made of names, quoted texts and marks. A name that is
not a proper one may stand where any word may. What may follow a token at once is fixed for each
kind of them.
-/

namespace BuildFiles.Xml

/-- A token of a declaration. -/
inductive Token where
  | name (n : WrittenName)
  /-- what is made of the characters of names and colons but is not a name -/
  | word
  /-- a name with a mark of how often it may come -/
  | counted
  /-- a name after a number sign -/
  | hashed (word : String)
  | quoted (cs : List Char)
  /-- a reference to declarations in another place -/
  | elsewhere
  | remark
  /-- the beginning of a declaration -/
  | declaration (keyword : String)
  /-- a closing parenthesis, with the mark of how often the group may come -/
  | closing (count : Option Char)
  | mark (c : Char)

namespace Token

/-- What follows starts with a blank or one of the marks. -/
def isFollowed (marks : List Char) (rest : List Char) : Bool :=
  rest.head?.any fun c => isBlank c || marks.contains c

/-- A quoted text after its first quote, and what follows. -/
def quoted? (quote : Char) (cs : List Char) : Option (Token × List Char) := do
  let (body, rest) ← Text.cut? quote cs
  guard (body.all isChar && isFollowed ['>', '%', '['] rest)
  return (.quoted body, rest)

/-- The beginning of a declaration after its marks, and what follows. -/
def declaration? (cs : List Char) : Option (Token × List Char) := do
  let isLetter (c : Char) : Bool := c.isAlpha || c == '_'
  let keyword := cs.takeWhile isLetter
  let rest := cs.dropWhile isLetter
  guard (!keyword.isEmpty && isFollowed [] rest)
  return (.declaration (String.ofList keyword), rest)

/-- A percent sign that stands alone, or a reference after it, and what follows. -/
def percent? (cs : List Char) : Option (Token × List Char) :=
  if isFollowed ['%'] cs then some (.mark '%', cs)
  else do
    let (_, rest) ← baseName? cs
    match rest with
    | ';' :: rest => return (.elsewhere, rest)
    | _ => none

/-- A name after its number sign, and what follows. -/
def hashed? (cs : List Char) : Option (Token × List Char) := do
  let (base, rest) ← baseName? cs
  guard (isFollowed [')', '>', '%', '|'] rest)
  return (.hashed base, rest)

/-- The marks of how often something may come. -/
def counts : List Char := ['?', '*', '+']

/-- A closing parenthesis after its mark, and what follows. -/
def closing? (cs : List Char) : Option (Token × List Char) :=
  match cs with
  | c :: rest =>
    if counts.contains c then some (.closing c, rest)
    else if isFollowed ['>', ',', '|', ')'] cs then some (.closing none, cs)
    else none
  | [] => none

/-- The name or the word that characters of such are. -/
def ofCharacters (cs : List Char) : Token :=
  if !cs.head?.any isNameStart then .word
  else match Text.cut? ':' cs with
    | none => .name ⟨"", String.ofList cs⟩
    | some (first, second) =>
      if second.isEmpty || second.contains ':' then .word
      else .name ⟨String.ofList first, String.ofList second⟩

/-- A name or a word, and what follows. -/
def characters? (cs : List Char) : Option (Token × List Char) := do
  let isPart (c : Char) : Bool := isNameChar c || c == ':'
  let rest := cs.dropWhile isPart
  guard (cs.head?.any isPart)
  let token := ofCharacters (cs.takeWhile isPart)
  match token, rest with
  | Token.name _, c :: after =>
    if counts.contains c then return (.counted, after)
    else if isFollowed ['>', ')', ',', '|', '[', '%'] rest then return (token, rest)
    else none
  | _, _ => if isFollowed ['>', ')', ',', '|', '[', '%'] rest then return (token, rest) else none

/-- The next token, after blanks, and what follows. -/
def next? (cs : List Char) : Option (Token × List Char) :=
  match skipBlanks cs with
  | [] => none
  | c :: rest =>
    if c = '<' then
      match afterRemark? (c :: rest), rest with
      | some after, _ => some (.remark, after)
      | none, '!' :: rest => declaration? rest
      | none, _ => none
    else if c = '"' || c = '\'' then quoted? c rest
    else if c = '%' then percent? rest
    else if c = '#' then hashed? rest
    else if c = ')' then closing? rest
    else if c = ']' && "]>".toList.isPrefixOf rest then none
    else if [']', '[', '(', '|', ',', '>'].contains c then some (.mark c, rest)
    else characters? (c :: rest)

end Token

end BuildFiles.Xml
