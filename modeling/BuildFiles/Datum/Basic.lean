import BuildFiles.Binary64
import BuildFiles.Path

/-!
# Data

`Datum` is the one type of values in the project. The reader of source forms and manifests yields
data; conversion, merging and rendering of rule attributes take them. A list `(a b)` and a vector
`[a b]` are told apart, and so are symbols, keywords and text. Paths, bare names, named arguments
and calls are never read; they occur in what is written.
-/

namespace BuildFiles

/-- A name that may lie in a name space, as in `space/base`. -/
structure Name where
  space : Option String
  base : String
  deriving DecidableEq, Inhabited

namespace Name

/-- A name outside of any name space. -/
def plain (base : String) : Name := ⟨none, base⟩

/-- Split a name at its first slash, if something stands before and after it. -/
def parse (s : String) : Name :=
  match Text.cutText? '/' s with
  | some (space, base) => if space.isEmpty || base.isEmpty then plain s else ⟨some space, base⟩
  | none => plain s

/-- The name with its name space in front. -/
def text (n : Name) : String :=
  match n.space with
  | some space => if space.isEmpty then n.base else space ++ "/" ++ n.base
  | none => n.base

end Name

/-- A value. -/
inductive Datum where
  | nil
  | bool (b : Bool)
  | int (n : Int)
  | float (x : Binary64)
  | ratio (q : Rat)
  | str (s : String)
  /-- a symbol, with the metadata that was attached to it -/
  | symbol (name : Name) (attached : List (Datum × Datum))
  | keyword (name : Name)
  | list (items : List Datum)
  | vector (items : List Datum)
  | map (entries : List (Datum × Datum))
  | set (items : List Datum)
  | regex (pattern : String)
  /-- a form under a reader tag, which is a symbol -/
  | tagged (tag : Name) (attached : List (Datum × Datum)) (form : Datum)
  /-- the items of a splicing reader conditional that no collection took in -/
  | splice (items : List Datum)
  | path (p : Path)
  /-- a name written without quotes -/
  | bare (name : String)
  /-- named arguments of a call -/
  | named (arguments : List (String × Datum))
  | call (function : String) (arguments : List Datum)
  deriving Inhabited

namespace Datum

/-- The symbol of a name, without metadata. -/
def sym (base : String) : Datum := .symbol (.plain base) []

/-- The keyword of a plain name. -/
def key (base : String) : Datum := .keyword (.plain base)

/-- The texts as a vector. -/
def texts (ss : List String) : Datum := .vector (ss.map .str)

/-- The items of a list or vector. -/
def sequence? : Datum → Option (List Datum)
  | .list xs => some xs
  | .vector xs => some xs
  | _ => none

/-- The entries of a map. -/
def entries? : Datum → Option (List (Datum × Datum))
  | .map es => some es
  | _ => none

/-- The name of a symbol. -/
def symbolName? : Datum → Option Name
  | .symbol n _ => some n
  | _ => none

/-- The name of a keyword. -/
def keywordName? : Datum → Option Name
  | .keyword n => some n
  | _ => none

/-- The characters of a text. -/
def text? : Datum → Option String
  | .str s => some s
  | _ => none

/-- What a datum holds when it is gone through: the items of a collection, the keys of a map, the
letters of a text. None for a datum that holds nothing. -/
def members? : Datum → Option (List Datum)
  | .list xs => some xs
  | .vector xs => some xs
  | .set xs => some xs
  | .map es => some (es.map Prod.fst)
  | .str s => some ((Text.letters s).map .str)
  | _ => none

/-- A keyword. -/
def isKeyword (d : Datum) : Bool := d.keywordName?.isSome

/-- A symbol. -/
def isSymbol (d : Datum) : Bool := d.symbolName?.isSome

end Datum

end BuildFiles
