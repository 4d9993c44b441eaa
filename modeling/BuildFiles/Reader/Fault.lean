import BuildFiles.Text.Quoted

/-!
# What can be wrong with a source text

`Malformation` lists what a text can break of the form grammar; such a fault is told with the line
that it was found on. `ReadFault` adds the faults of values that are well formed and stand for
nothing: numerals in a base that has no such digit or with more digits than are read, code points
that are no character, a ratio over zero, and keys that cannot be keys.
-/

namespace BuildFiles

/-- A breach of the grammar of forms. -/
inductive Malformation where
  | unmatchedDelimiter (delimiter : Char)
  | unclosed (closer : Char)
  | endOfInput
  | endInString
  | endInRegex
  | endInCharacter
  | strayCharacter (rest : String)
  | unknownEscape (letter : String)
  | shortUnicodeEscape
  | unknownCharacter (token : String)
  | emptyKeyword
  | badNumber (token : String)
  | unknownSymbolicValue (token : String)
  | readEval
  | oddMap
  | namespacedWithoutMap
  | conditionalWithoutList
  | oddConditional
  | featureNotKeyword
  | spliceOfNoSequence
  | looseSplice
  | badMetadata
  | badTag
  deriving DecidableEq

/-- The wording of a breach. -/
def Malformation.message : Malformation → String
  | .unmatchedDelimiter c => "unmatched delimiter " ++ Text.quoted (String.singleton c)
  | .unclosed c => "EOF while reading, expected " ++ Text.quoted (String.singleton c)
  | .endOfInput => "unexpected end of input"
  | .endInString => "EOF while reading string"
  | .endInRegex => "EOF while reading regex"
  | .endInCharacter => "EOF while reading character"
  | .strayCharacter rest => "unexpected character " ++ Text.quoted rest
  | .unknownEscape letter => "unsupported escape character \\" ++ letter
  | .shortUnicodeEscape => "invalid unicode escape"
  | .unknownCharacter token => "unsupported character: \\" ++ token
  | .emptyKeyword => "invalid keyword"
  | .badNumber token => "invalid number: " ++ token
  | .unknownSymbolicValue token => "unknown symbolic value ##" ++ token
  | .readEval => "read-eval forms are not supported"
  | .oddMap => "map literal must contain an even number of forms"
  | .namespacedWithoutMap => "namespaced map must be followed by a map"
  | .conditionalWithoutList => "reader conditional body must be a list"
  | .oddConditional => "reader conditional requires an even number of forms"
  | .featureNotKeyword => "reader conditional feature must be a keyword"
  | .spliceOfNoSequence => "spliced reader conditional must yield a sequence"
  | .looseSplice => "reader conditional splicing outside of a collection"
  | .badMetadata => "metadata must be a symbol, keyword, string or map"
  | .badTag => "reader tag must be a symbol"

/-- What reading a text can fail with. -/
inductive ReadFault where
  /-- the grammar is broken, as found on the line -/
  | malformed (cause : Malformation) (line : Nat)
  /-- digits that no integer is read from: the base does not have them, or they are too many -/
  | badDigits
  /-- a number that is no code point of a character -/
  | badCodePoint
  /-- a number beyond 32 bits in the place of a code point -/
  | hugeCodePoint
  /-- half of a character in the place of a code point: texts that hold one are not modelled -/
  | halfCharacter
  /-- a ratio over zero -/
  | zeroDenominator
  /-- a key or an element that cannot be one -/
  | unkeyable
  deriving DecidableEq

/-- The wording of a breach of the grammar with its line. -/
def malformedMessage (cause : Malformation) (line : Nat) : String :=
  s!"{cause.message} (line {line})"

end BuildFiles
