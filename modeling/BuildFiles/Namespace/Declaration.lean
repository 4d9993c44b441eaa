import BuildFiles.Datum.Key
import BuildFiles.Datum.Display
import BuildFiles.Text.Basic
import BuildFiles.Fault

/-!
# Namespace declarations

What the form `(ns name ...)` that heads a source file declares: the namespaces that it requires,
the classes that it imports, the class that it asks to have generated, and its metadata.
`Declaration.ofForm` reads one from its form. The specs of a clause may share a beginning of their
names, to any depth; `specNames` writes them out.
-/

namespace BuildFiles

/-- What a file declares about its namespace. -/
structure Declaration where
  name : String
  /-- the required namespaces, in the order of their names and each once -/
  requires : List String
  /-- the imported classes in the order of their mention, each once -/
  imports : List String
  /-- the options of the class to generate, if one is asked for -/
  genClass : Option (Entries String Datum)
  metadata : Entries Datum Datum
  /-- where the declaration was read -/
  source : String

namespace Declaration

/-- A class is to be generated. -/
def asksForClass (d : Declaration) : Bool := d.genClass.isSome

/-- The class that the generated one extends. -/
def extendedClass? (d : Declaration) : Option String := do
  let options ← d.genClass
  let n ← (← options.get? "extends").symbolName?
  return n.text

/-! ## Specs -/

/-- A name under the beginning that it shares with others. -/
def joined (beginning : Option String) (n : Name) : String :=
  match beginning with
  | some b => b ++ "." ++ n.text
  | none => n.text

mutual

/-- The namespaces that a spec names. -/
def specNames (beginning : Option String) : Datum → List String
  | .symbol n _ => [joined beginning n]
  | .list xs => sequenceNames beginning xs
  | .vector xs => sequenceNames beginning xs
  | _ => []

/-- The namespaces that a spec in a sequence names: the one at its head, if nothing or options
follow, or else those that have the head as their beginning. A spec that only gives an alias names
none. -/
def sequenceNames (beginning : Option String) : List Datum → List String
  | [] => []
  | head :: rest =>
    match head.symbolName? with
    | none => []
    | some n =>
      match rest with
      | [] => [joined beginning n]
      | second :: _ =>
        if rest.any Datum.isKeyword then
          if second.isKeyword && !rest.any (· == .key "as-alias") then [joined beginning n] else []
        else allNames (some (joined beginning n)) rest

/-- The namespaces that the specs name. -/
def allNames (beginning : Option String) : List Datum → List String
  | [] => []
  | x :: xs => specNames beginning x ++ allNames beginning xs

end

/-- The classes that one spec of an import names: a class, or a package with classes of it. -/
def importedClasses (spec : Datum) : List String :=
  match spec with
  | .symbol n _ => [n.text]
  | _ =>
    match spec.sequence? with
    | some (head :: classes) =>
      match head.symbolName? with
      | some package => (classes.filterMap Datum.symbolName?).map fun c =>
          package.text ++ "." ++ c.text
      | none => []
    | _ => []

/-- Option names and values that alternate; a last name without a value is dropped. -/
def classOptions : List Datum → Entries String Datum → Entries String Datum
  | key :: value :: rest, options =>
    match key.keywordName? with
    | some n => classOptions rest (options.insert n.base value)
    | none => classOptions rest options
  | _, options => options

/-! ## Clauses -/

/-- A clause: the name of its keyword, and what follows. -/
structure Clause where
  head : String
  arguments : List Datum

/-- The clause that a form is. -/
def Clause.ofForm? : Datum → Option Clause
  | .list (head :: arguments) => head.keywordName?.map fun n => ⟨n.base, arguments⟩
  | _ => none

/-- The clauses that name required namespaces. -/
def dependencyClauses : List String := ["require", "use", "require-macros", "use-macros"]

/-- The namespaces that a clause requires. -/
def Clause.requires (c : Clause) : List String :=
  if dependencyClauses.contains c.head then allNames none c.arguments else []

/-- The classes that a clause imports. -/
def Clause.imports (c : Clause) : List String :=
  if c.head = "import" then c.arguments.flatMap importedClasses else []

/-- The options of the class that a clause asks for. -/
def Clause.classOptions? (c : Clause) : Option (Entries String Datum) :=
  if c.head = "gen-class" then some (classOptions c.arguments []) else none

/-- The form is a declaration of a namespace. -/
def isForm : Datum → Bool
  | .list (head :: _) => head == .sym "ns"
  | _ => false

/-- The entries that are metadata of a declaration. -/
def metadataOf (es : List (Datum × Datum)) : List (Datum × Datum) :=
  es.filter fun e => e.1.isKeyword

/-- What follows the name: without a text, and with a map of metadata apart. -/
def splitHead (rest : List Datum) : List (Datum × Datum) × List Datum :=
  let rest := match rest with
    | .str _ :: more => more
    | _ => rest
  match rest with
  | .map es :: more => (es, more)
  | _ => ([], rest)

/-- Read a declaration from its form. -/
def ofForm (form : Datum) (source : String) : Except Fault Declaration :=
  let place := if source.isEmpty then "<form>" else source
  match form with
  | .list (head :: rest) =>
    if head == .sym "ns" then
      match rest with
      | .symbol n attached :: body =>
        let (es, refs) := splitHead body
        let clauses := refs.filterMap Clause.ofForm?
        .ok {
          name := n.text
          requires := Text.sortedOnce (clauses.flatMap Clause.requires)
          imports := (clauses.flatMap Clause.imports).eraseDups
          genClass := clauses.findSome? Clause.classOptions?
          metadata := (Entries.ofList (metadataOf attached)).insertAll (metadataOf es)
          source := source }
      | _ => .error (.declaration place .nameless)
    else .error (.declaration place .notDeclaration)
  | _ => .error (.declaration place .notDeclaration)

end Declaration

/-- The first declaration of each namespace, in order. -/
def firstDeclarations (ds : List Declaration) : List Declaration :=
  Entries.values <|
    ds.foldl (fun (seen : Entries String Declaration) d => seen.insertNew d.name d) []

end BuildFiles
