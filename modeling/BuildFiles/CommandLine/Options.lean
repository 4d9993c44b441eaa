import BuildFiles.Entries
import BuildFiles.Text.Basic
import BuildFiles.Text.Digit

/-!
# Options of a command line

Arguments are options, values of options, and other words. An option may be shortened as long as no
other one starts the same, its value may be attached to it after an equals sign, and options of one
letter may be run together. After the end mark there are only words. `classifyAll` tells what each
argument is before any of them has an effect, and `Options.read` goes through them and keeps the
values of options.
-/

namespace BuildFiles.CommandLine

/-- How many values an option takes. -/
inductive Arity where
  | none
  | one
  | any
  | atLeastOne
  deriving DecidableEq

/-- An option. -/
structure OptionSpec where
  /-- what its values are kept under -/
  key : String
  /-- how it is written -/
  names : List String
  arity : Arity
  /-- what it is for -/
  purpose : String
  /-- the values that it takes -/
  accepts : String → Bool := fun _ => true

/-- Why reading stops before the end. -/
inductive Halt where
  /-- the arguments are not accepted -/
  | refused
  /-- help is asked for -/
  | help

/-! ## What arguments are -/

/-- What one argument is. -/
inductive Argument where
  | word
  | option (spec : OptionSpec) (attached : Option String) (isLetter : Bool)
  | unknown
  | endMark

/-- The argument after which there are no options. As the attached value of an option it stands for
no value at all. -/
def endMark : String := "--"

/-- A decimal digit of any script. -/
def isDecimal (c : Char) : Bool := (Text.decimalValue? c).isSome

/-- An argument that reads as a negative number, if need be without a line feed at its end. -/
def isNegativeNumber (arg : String) : Bool :=
  match arg.toList with
  | '-' :: cs =>
    let cs := if cs.getLast? = some '\n' then cs.dropLast else cs
    match (cs.splitOn '.').map fun part => (part.length, part.all isDecimal) with
    | [(n, digits)] => 0 < n && digits
    | [(_, before), (n, after)] => before && 0 < n && after
    | _ => false
  | _ => false

/-- The option of a name. -/
def named? (specs : List OptionSpec) (name : String) : Option OptionSpec :=
  specs.find? fun s => s.names.contains name

/-- An argument about its first equals sign. -/
def splitValue (arg : String) : String × Option String :=
  match Text.cutText? '=' arg with
  | some (name, value) => (name, some value)
  | none => (arg, none)

/-- A name of one letter, after a single dash. -/
def isLetterName (name : String) : Bool := !Text.startsWith name "--"

/-- The options that an argument may be short for, or run together with others of one letter. -/
def candidates (specs : List OptionSpec) (arg : String) : List Argument :=
  let (start, value) := splitValue arg
  let letter := String.ofList (arg.toList.take 2)
  specs.flatMap fun s => s.names.filterMap fun n =>
    if Text.startsWith arg "--" then
      if Text.startsWith n start then some (.option s value false) else none
    else if n = letter then some (.option s (some (String.ofList (arg.toList.drop 2))) true)
    else if Text.startsWith n arg then some (.option s none (isLetterName n))
    else none

/-- What an argument before the end mark is. -/
def classify (specs : List OptionSpec) (arg : String) : Except Halt Argument :=
  if !Text.startsWith arg "-" || arg = "-" then .ok .word
  else
    let (name, value) := splitValue arg
    match named? specs arg, named? specs name with
    | some s, _ => .ok (.option s none (isLetterName arg))
    | none, some s => .ok (.option s value (isLetterName name))
    | none, none =>
      match candidates specs arg with
      | [a] => .ok a
      | _ :: _ => .error .refused
      | [] => .ok (if isNegativeNumber arg || arg.toList.contains ' ' then .word else .unknown)

/-- The arguments with what each of them is. -/
def classifyAll (specs : List OptionSpec) :
    List String → Except Halt (List (String × Argument))
  | [] => .ok []
  | arg :: rest =>
    if arg = endMark then .ok ((arg, .endMark) :: rest.map fun word => (word, .word))
    else do
      let a ← classify specs arg
      return (arg, a) :: (← classifyAll specs rest)

/-- Options of one letter that are run together: those before the last, and the last with the value
that is attached to it. -/
def lettersApart (specs : List OptionSpec) (s : OptionSpec) :
    List Char → Except Halt (List OptionSpec × OptionSpec × Option String)
  | [] => .ok ([], s, none)
  | c :: cs =>
    if s.arity = .none then
      match named? specs (String.ofList ['-', c]) with
      | some next => do
        let (before, last) ← lettersApart specs next cs
        return (s :: before, last)
      | none => .error .refused
    else .ok ([], s, some (String.ofList (c :: cs)))

/-! ## Reading -/

/-- What has been read. -/
structure Options where
  values : Entries String (List String) := []
  /-- an argument was of no use -/
  hasStray : Bool := false
  /-- the option whose values are being read, with those so far -/
  pending : Option (OptionSpec × List String) := none

namespace Options

/-- The number of values is one that the option takes. -/
def fits : Arity → Nat → Bool
  | .none, n => n == 0
  | .one, n => n == 1
  | .any, _ => true
  | .atLeastOne, n => 0 < n

/-- Keep the values of an option. -/
def keep (o : Options) (s : OptionSpec) (values : List String) : Except Halt Options :=
  if s.key = "help" then .error .help
  else if values.all s.accepts then
    .ok { o with values := o.values.insert s.key values, pending := none }
  else .error .refused

/-- End the values that are being read. -/
def close (o : Options) : Except Halt Options :=
  match o.pending with
  | some (s, values) => if fits s.arity values.length then o.keep s values else .error .refused
  | none => .ok o

/-- The option that is being read takes one more value. -/
def takesMore (o : Options) : Option (OptionSpec × List String) :=
  o.pending.filter fun (s, values) => s.arity ≠ .one || values.isEmpty

/-- Note an argument that is of no use. -/
def stray (o : Options) : Options := { o with hasStray := true }

/-- Take in an option that takes values, or a flag, with the value that is attached to it. -/
def takeOne (o : Options) (s : OptionSpec) (attached : Option String) : Except Halt Options :=
  match attached with
  | some value =>
    if s.arity = .none then .error .refused
    else o.keep s (if value = endMark then [] else [value])
  | none => if s.arity = .none then o.keep s [] else .ok { o with pending := some (s, []) }

/-- Take in an option, or several of one letter. None of those has an effect unless all are options
and the value that is left fits the last of them. -/
def take (specs : List OptionSpec) (o : Options) (s : OptionSpec) (attached : Option String)
    (isLetter : Bool) : Except Halt Options := do
  match attached, isLetter with
  | some value, true =>
    if value.isEmpty then o.takeOne s attached
    else
      let (before, last, rest) ← lettersApart specs s value.toList
      (← before.foldlM (fun o flag => o.keep flag []) o).takeOne last rest
  | _, _ => o.takeOne s attached

/-- Read arguments up to the first word that is no value of an option, and give what is left from
it on. -/
def readToWord (specs : List OptionSpec) :
    Options → List (String × Argument) → Except Halt (Options × List String)
  | o, [] => do return (← o.close, [])
  | o, (arg, a) :: rest => do
    match a, o.takesMore with
    | .word, some (s, values) =>
      readToWord specs { o with pending := some (s, values ++ [arg]) } rest
    | .word, none => return (← o.close, arg :: rest.map Prod.fst)
    | .option s attached isLetter, _ =>
      readToWord specs (← take specs (← o.close) s attached isLetter) rest
    | .unknown, _ => readToWord specs (← o.close).stray rest
    | .endMark, _ => .error .refused

/-- Read all arguments. A word that is no value of an option is of no use, nor is the end mark. -/
def read (specs : List OptionSpec) (o : Options) : List (String × Argument) → Except Halt Options
  | [] => o.close
  | (arg, a) :: rest => do
    match a, o.takesMore with
    | .word, some (s, values) =>
      read specs { o with pending := some (s, values ++ [arg]) } rest
    | .option s attached isLetter, _ =>
      read specs (← take specs (← o.close) s attached isLetter) rest
    | _, _ => read specs (← o.close).stray rest

/-- What is written for an option that takes one value; inside, none if it is written without. -/
def written? (o : Options) (key : String) : Option (Option String) :=
  (o.values.get? key).map List.head?

/-- The value of an option that takes one. -/
def value? (o : Options) (key : String) : Option String := (o.written? key).bind id

/-- The value of an option that takes one, if it is not empty. -/
def text? (o : Options) (key : String) : Option String :=
  (o.value? key).filter fun s => !s.isEmpty

/-- The option was given. -/
def has (o : Options) (key : String) : Bool := Entries.has o.values key

end Options

end BuildFiles.CommandLine
