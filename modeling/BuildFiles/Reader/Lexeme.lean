import BuildFiles.Reader.Numeral
import BuildFiles.Text.Lines

/-!
# Lexemes

A text is a row of lexemes with blanks and comments between them. A lexeme is an atom, which is a
datum of its own, or a mark that tells how the data about it belong together. `scan` takes the
lexeme at the beginning of a text. `scan_length` says that it always takes something, which is why
every reading ends.

Where a text is wrong is told by what is left of it there; the line is counted from that.
-/

namespace BuildFiles.Reader

/-- Why reading stopped: a breach of the grammar with the text that was left, or a value that stands
for nothing. -/
inductive Stop where
  | malformed (cause : Malformation) (rest : List Char)
  | worthless (fault : ReadFault)

/-- A blank between forms; a comma is one. -/
def isSpace (c : Char) : Bool :=
  c == ' ' || c == '\t' || c == '\r' || c == '\n' || c == '\x0c' || c == ','

/-- A character that ends a token, besides the blanks. -/
def isDelimiter (c : Char) : Bool :=
  c == '(' || c == ')' || c == '[' || c == ']' || c == '{' || c == '}' || c == '"' || c == ';'
    || c == '\x60' || c == '~' || c == '^' || c == '@' || c == '\\'

/-- A character that goes on a token. -/
def isTokenChar (c : Char) : Bool := !isSpace c && !isDelimiter c

/-- The token at the beginning of the text. -/
def token (cs : List Char) : List Char := cs.takeWhile isTokenChar

/-- The text after its first token. -/
def afterToken (cs : List Char) : List Char := cs.dropWhile isTokenChar

mutual

/-- The text after blanks and comments. -/
def skipBlank : List Char → List Char
  | [] => []
  | c :: cs =>
    if isSpace c then skipBlank cs else if c = ';' then skipComment cs else c :: cs

/-- The text after the rest of a comment and what `skipBlank` skips. -/
def skipComment : List Char → List Char
  | [] => []
  | c :: cs => if c = '\n' then skipBlank cs else skipComment cs

end

/-- What holds data together. -/
inductive Bracket where
  | round
  | square
  | curly
  | set
  | function
  | conditional (splicing : Bool)
  | qualifying (space : String)
  deriving DecidableEq

/-- The delimiter that closes a bracket. -/
def Bracket.closer : Bracket → Char
  | .round | .function | .conditional _ => ')'
  | .square => ']'
  | .curly | .set | .qualifying _ => '}'

/-- A lexeme. -/
inductive Lexeme where
  | atom (d : Datum)
  | opening (b : Bracket)
  | closing (delimiter : Char)
  /-- a mark that puts the next form into a list after a symbol -/
  | wrapping (head : String)
  | metadata
  | discard
  | tag
  /-- a line that reads as a comment does -/
  | gap

/-- A lexeme and the text after it. -/
abbrev Scanned := Except Stop (Lexeme × List Char)

/-- What a letter stands for after a backslash in a string. -/
def stringEscape? : Char → Option Char
  | 'n' => some '\n'
  | 't' => some '\t'
  | 'r' => some '\r'
  | 'b' => some '\x08'
  | 'f' => some '\x0c'
  | '"' => some '"'
  | '\\' => some '\\'
  | _ => none

/-- The characters of a string up to its closing quote, and the text after it; `start` is the text
after the opening quote. -/
def stringBody (start : List Char) : List Char → Except Stop (List Char × List Char)
  | [] => .error (.malformed .endInString start)
  | '"' :: cs => .ok ([], cs)
  | ['\\'] => .error (.malformed (.unknownEscape "") [])
  | '\\' :: 'u' :: a :: b :: c :: d :: cs =>
    match characterIn 16 [a, b, c, d] with
    | .error e => .error (.worthless e)
    | .ok x => (stringBody start cs).map fun (s, rest) => (x :: s, rest)
  | '\\' :: 'u' :: cs => .error (.malformed .shortUnicodeEscape cs)
  | '\\' :: e :: cs =>
    match stringEscape? e with
    | some x => (stringBody start cs).map fun (s, rest) => (x :: s, rest)
    | none => .error (.malformed (.unknownEscape (String.singleton e)) cs)
  | c :: cs => (stringBody start cs).map fun (s, rest) => (c :: s, rest)

/-- The characters of a regular expression up to its closing quote, and the text after it. A
backslash is kept with the character after it. -/
def regexBody : List Char → Except Stop (List Char × List Char)
  | [] => .error (.malformed .endInRegex [])
  | '"' :: cs => .ok ([], cs)
  | ['\\'] => .error (.malformed .endInRegex [])
  | '\\' :: c :: cs => (regexBody cs).map fun (s, rest) => ('\\' :: c :: s, rest)
  | c :: cs => (regexBody cs).map fun (s, rest) => (c :: s, rest)

/-- The characters that have a name. -/
def namedCharacter? (name : String) : Option Char :=
  [("newline", '\n'), ("space", ' '), ("tab", '\t'), ("backspace", '\x08'), ("formfeed", '\x0c'),
    ("return", '\r')].lookup name

/-- The character that a token after a backslash stands for; `rest` is the text after it. -/
def character (token rest : List Char) : Except Stop Char :=
  let unknown := .error (.malformed (.unknownCharacter (String.ofList token)) rest)
  let coded (base : Nat) (digits : List Char) : Except Stop Char :=
    match characterIn base digits with
    | .ok c => .ok c
    | .error e => .error (.worthless e)
  match token with
  | [c] => .ok c
  | first :: digits =>
    match namedCharacter? (String.ofList token) with
    | some c => .ok c
    | none =>
      if first = 'u' ∧ digits.length = 4 then coded 16 digits
      else if first = 'o' then coded 8 digits
      else unknown
  | [] => unknown

/-- The character literal after its backslash. -/
def scanCharacter : List Char → Scanned
  | [] => .error (.malformed .endInCharacter [])
  | c :: cs =>
    match character (c :: token cs) (afterToken cs) with
    | .ok x => .ok (.atom (.str (String.singleton x)), afterToken cs)
    | .error e => .error e

/-- The text without a colon at its beginning. -/
def dropColon : List Char → List Char
  | ':' :: cs => cs
  | cs => cs

/-- The keyword after its colon; a second colon is passed over. -/
def scanKeyword (cs : List Char) : Scanned :=
  match token (dropColon cs) with
  | [] => .error (.malformed .emptyKeyword (dropColon cs))
  | name =>
    .ok (.atom (.keyword (.parse (String.ofList name))), afterToken (dropColon cs))

/-- A token starts a number. -/
def startsNumber : List Char → Bool
  | c :: d :: _ => Text.isDigit c || ((c == '+' || c == '-') && Text.isDigit d)
  | [c] => Text.isDigit c
  | [] => false

/-- The datum of a token that no mark stands before; `rest` is the text after it. -/
def atomOf (token rest : List Char) : Except Stop Datum :=
  if token.isEmpty then
    .error (.malformed (.strayCharacter (String.ofList (rest.take 1))) rest)
  else if token = ['n', 'i', 'l'] then .ok .nil
  else if token = ['t', 'r', 'u', 'e'] then .ok (.bool true)
  else if token = ['f', 'a', 'l', 's', 'e'] then .ok (.bool false)
  else if startsNumber token then
    match number? token with
    | some (.ok d) => .ok d
    | some (.error e) => .error (.worthless e)
    | none => .error (.malformed (.badNumber (String.ofList token)) rest)
  else .ok (.symbol (.parse (String.ofList token)) [])

/-- The symbolic value after its two number signs. -/
def scanSymbolicValue (cs : List Char) : Scanned :=
  let rest := afterToken cs
  let name := String.ofList (token cs)
  if name = "Inf" then .ok (.atom (.float (.infinity false)), rest)
  else if name = "-Inf" then .ok (.atom (.float (.infinity true)), rest)
  else if name = "NaN" then .ok (.atom (.float .undefined), rest)
  else .error (.malformed (.unknownSymbolicValue name) rest)

/-- The opening of a reader conditional after its question mark. -/
def scanConditional (cs : List Char) : Scanned :=
  let (splicing, cs) := match cs with
    | '@' :: more => (true, more)
    | _ => (false, cs)
  match skipBlank cs with
  | '(' :: rest => .ok (.opening (.conditional splicing), rest)
  | rest => .error (.malformed .conditionalWithoutList rest)

/-- The opening of a map whose keys are qualified, after its colon. -/
def scanQualifying (cs : List Char) : Scanned :=
  match skipBlank (afterToken cs) with
  | '{' :: rest => .ok (.opening (.qualifying (String.ofList (token cs))), rest)
  | rest => .error (.malformed .namespacedWithoutMap rest)

/-- A lexeme after its number sign. -/
def scanDispatch : List Char → Scanned
  | '{' :: cs => .ok (.opening .set, cs)
  | '_' :: cs => .ok (.discard, cs)
  | '"' :: cs => (regexBody cs).map fun (s, rest) => (.atom (.regex (String.ofList s)), rest)
  | '\'' :: cs => .ok (.wrapping "var", cs)
  | '(' :: cs => .ok (.opening .function, cs)
  | '?' :: cs => scanConditional cs
  | '#' :: cs => scanSymbolicValue cs
  | ':' :: cs => scanQualifying cs
  | '!' :: cs => .ok (.gap, Text.afterLine cs)
  | '=' :: cs => .error (.malformed .readEval ('=' :: cs))
  | cs => .ok (.tag, cs)

/-- The lexeme that starts with the character `c`, before the text `cs`. -/
def scan (c : Char) (cs : List Char) : Scanned :=
  match c with
  | '(' => .ok (.opening .round, cs)
  | '[' => .ok (.opening .square, cs)
  | '{' => .ok (.opening .curly, cs)
  | ')' | ']' | '}' => .ok (.closing c, cs)
  | '"' => (stringBody cs cs).map fun (s, rest) => (.atom (.str (String.ofList s)), rest)
  | '\\' => scanCharacter cs
  | ':' => scanKeyword cs
  | '\'' => .ok (.wrapping "quote", cs)
  | '\x60' => .ok (.wrapping "syntax-quote", cs)
  | '~' =>
    match cs with
    | '@' :: rest => .ok (.wrapping "unquote-splicing", rest)
    | _ => .ok (.wrapping "unquote", cs)
  | '@' => .ok (.wrapping "deref", cs)
  | '^' => .ok (.metadata, cs)
  | '#' => scanDispatch cs
  | _ =>
    let rest := afterToken (c :: cs)
    match atomOf (token (c :: cs)) rest with
    | .ok d => .ok (.atom d, rest)
    | .error e => .error e

/-! ## Scanning makes progress -/

theorem length_afterToken_le (cs : List Char) : (afterToken cs).length ≤ cs.length :=
  (List.dropWhile_suffix _).length_le

mutual

theorem length_skipBlank_le : ∀ cs : List Char, (skipBlank cs).length ≤ cs.length
  | [] => Nat.le_refl _
  | c :: cs => by
    have h₁ := length_skipBlank_le cs
    have h₂ := length_skipComment_le cs
    unfold skipBlank
    split
    · exact Nat.le_succ_of_le h₁
    · split
      · exact Nat.le_succ_of_le h₂
      · exact Nat.le_refl _

theorem length_skipComment_le : ∀ cs : List Char, (skipComment cs).length ≤ cs.length
  | [] => Nat.le_refl _
  | c :: cs => by
    have h₁ := length_skipBlank_le cs
    have h₂ := length_skipComment_le cs
    unfold skipComment
    split
    · exact Nat.le_succ_of_le h₁
    · exact Nat.le_succ_of_le h₂

end

theorem length_of_map_ok {ε α β : Type} {x : Except ε (α × List Char)} {f : α → β} {n : Nat}
    (h : ∀ a rest, x = .ok (a, rest) → rest.length ≤ n) {b : β} {rest : List Char}
    (hx : x.map (fun p => (f p.1, p.2)) = .ok (b, rest)) : rest.length ≤ n := by
  cases x with
  | error e => simp [Except.map] at hx
  | ok p =>
    obtain ⟨a, r⟩ := p
    simp only [Except.map, Except.ok.injEq, Prod.mk.injEq] at hx
    exact hx.2 ▸ h a r rfl

/-- What comes after a text between quotes is shorter than what it was read from. -/
theorem length_stringBody_le (start cs : List Char) :
    ∀ s rest, stringBody start cs = .ok (s, rest) → rest.length ≤ cs.length := by
  fun_induction stringBody start cs with
  | case1 => intro s rest h; cases h
  | case2 cs => intro s rest h; cases h; simp
  | case3 => intro s rest h; cases h
  | case4 => intro s rest h; cases h
  | case5 a b c d cs x hx ih =>
    intro s rest h
    have := length_of_map_ok (f := (x :: ·)) ih h
    simp only [List.length_cons]
    omega
  | case6 => intro s rest h; cases h
  | case7 e cs h₁ h₂ x hx ih =>
    intro s rest h
    have := length_of_map_ok (f := (x :: ·)) ih h
    simp only [List.length_cons]
    omega
  | case8 => intro s rest h; cases h
  | case9 c cs h₁ h₂ h₃ h₄ h₅ ih =>
    intro s rest h
    have := length_of_map_ok (f := (c :: ·)) ih h
    simp only [List.length_cons]
    omega

theorem length_regexBody_le (cs : List Char) :
    ∀ s rest, regexBody cs = .ok (s, rest) → rest.length ≤ cs.length := by
  fun_induction regexBody cs with
  | case1 => intro s rest h; cases h
  | case2 cs => intro s rest h; cases h; simp
  | case3 => intro s rest h; cases h
  | case4 c cs ih =>
    intro s rest h
    have := length_of_map_ok (f := fun s => '\\' :: c :: s) ih h
    simp only [List.length_cons]
    omega
  | case5 c cs h₁ h₂ h₃ ih =>
    intro s rest h
    have := length_of_map_ok (f := (c :: ·)) ih h
    simp only [List.length_cons]
    omega

theorem scanCharacter_length {cs : List Char} {x : Lexeme} {rest : List Char}
    (h : scanCharacter cs = .ok (x, rest)) : rest.length ≤ cs.length := by
  unfold scanCharacter at h
  split at h
  · cases h
  · split at h
    · cases h
      exact Nat.le_succ_of_le (length_afterToken_le _)
    · cases h

theorem length_dropColon_le (cs : List Char) : (dropColon cs).length ≤ cs.length := by
  unfold dropColon
  split <;> simp

theorem scanKeyword_length {cs : List Char} {x : Lexeme} {rest : List Char}
    (h : scanKeyword cs = .ok (x, rest)) : rest.length ≤ cs.length := by
  unfold scanKeyword at h
  split at h
  · cases h
  · cases h
    exact Nat.le_trans (length_afterToken_le _) (length_dropColon_le _)

theorem length_afterToken_cons_of_token {c : Char} {cs : List Char}
    (h : token (c :: cs) ≠ []) : (afterToken (c :: cs)).length ≤ cs.length := by
  by_cases hc : isTokenChar c
  · simp only [afterToken, List.dropWhile_cons, hc, if_true]
    exact length_afterToken_le cs
  · simp [token, hc] at h

theorem scanSymbolicValue_length {cs : List Char} {x : Lexeme} {rest : List Char}
    (h : scanSymbolicValue cs = .ok (x, rest)) : rest.length ≤ cs.length := by
  unfold scanSymbolicValue at h
  dsimp only at h
  repeat' split at h
  all_goals cases h
  all_goals exact length_afterToken_le _

theorem scanConditional_length {cs : List Char} {x : Lexeme} {rest : List Char}
    (h : scanConditional cs = .ok (x, rest)) : rest.length ≤ cs.length := by
  unfold scanConditional at h
  split at h
  next splicing cs' hcs =>
    have hle : cs'.length ≤ cs.length := by
      split at hcs <;> cases hcs <;> simp
    split at h
    · next r hr =>
      cases h
      have := length_skipBlank_le cs'
      rw [hr] at this
      simp only [List.length_cons] at this
      omega
    · cases h

theorem scanQualifying_length {cs : List Char} {x : Lexeme} {rest : List Char}
    (h : scanQualifying cs = .ok (x, rest)) : rest.length ≤ cs.length := by
  unfold scanQualifying at h
  split at h
  · next r hr =>
    cases h
    have h₁ := length_skipBlank_le (afterToken cs)
    have h₂ := length_afterToken_le cs
    rw [hr] at h₁
    simp only [List.length_cons] at h₁
    omega
  · cases h

theorem scanDispatch_length {cs : List Char} {x : Lexeme} {rest : List Char}
    (h : scanDispatch cs = .ok (x, rest)) : rest.length ≤ cs.length := by
  unfold scanDispatch at h
  split at h
  · cases h; simp
  · cases h; simp
  · next cs =>
    exact Nat.le_succ_of_le
      (length_of_map_ok (f := fun s => Lexeme.atom (.regex (String.ofList s)))
        (length_regexBody_le cs) h)
  · cases h; simp
  · cases h; simp
  · exact Nat.le_succ_of_le (scanConditional_length h)
  · exact Nat.le_succ_of_le (scanSymbolicValue_length h)
  · exact Nat.le_succ_of_le (scanQualifying_length h)
  · cases h
    exact Nat.le_succ_of_le (Text.length_afterLine_le _)
  · cases h
  · cases h; exact Nat.le_refl _

/-- A lexeme takes at least its first character from the text, so that the reading comes to an
end. -/
theorem scan_length {c : Char} {cs : List Char} {x : Lexeme} {rest : List Char}
    (h : scan c cs = .ok (x, rest)) : rest.length ≤ cs.length := by
  unfold scan at h
  split at h
  case h_7 =>
    exact length_of_map_ok (f := fun s => Lexeme.atom (.str (String.ofList s)))
      (length_stringBody_le cs cs) h
  case h_8 => exact scanCharacter_length h
  case h_9 => exact scanKeyword_length h
  case h_12 =>
    split at h <;> cases h <;> simp
  case h_15 => exact scanDispatch_length h
  case h_16 =>
    dsimp only at h
    split at h
    · next d hd =>
      cases h
      refine length_afterToken_cons_of_token fun htoken => ?_
      simp [htoken, atomOf] at hd
    · cases h
  all_goals
    cases h
    exact Nat.le_refl _

end BuildFiles.Reader
