import BuildFiles.Fault

/-!
# Data in build files

`Datum.render` writes a datum as an expression of a build file. Text and paths stand between double
quotes, lists and vectors between square brackets, and named arguments one to a line. Null, floating
point numbers, ratios, symbols, keywords, sets, regular expressions and tagged forms have no
expression, nor have integers of too many digits; the fault shows the first of them in reading
order.
-/

namespace BuildFiles.Datum

/-- A character between double quotes. -/
def escapedChar (c : Char) : List Char :=
  match c with
  | '"' => ['\\', '"']
  | '\\' => ['\\', '\\']
  | '\n' => ['\\', 'n']
  | '\t' => ['\\', 't']
  | '\r' => ['\\', 'r']
  | '\x0c' => ['\\', 'f']
  | '\x08' => ['\\', 'b']
  | c => [c]

/-- Characters between double quotes. -/
def quoteList (cs : List Char) : List Char := '"' :: cs.flatMap escapedChar ++ ['"']

/-- A text between double quotes. -/
def quote (s : String) : String := String.ofList (quoteList s.toList)

mutual

/-- The expression of a datum, or a fault for the first datum in it that has none. -/
def render : Datum → Except Fault String
  | .bool b => .ok (if b then "True" else "False")
  | .int n => written (.int n)
  | .str s => .ok (quote s)
  | .path p => .ok (quote p.toText)
  | .bare s => .ok s
  | .list xs => do return "[" ++ ", ".intercalate (← renderAll xs) ++ "]"
  | .vector xs => do return "[" ++ ", ".intercalate (← renderAll xs) ++ "]"
  | .map es => do return "\x7b" ++ ", ".intercalate (← renderEntries es) ++ "\x7d"
  | .named arguments => do return ",\n\t".intercalate (← renderArguments arguments)
  | .call f arguments => do return f ++ "(" ++ ", ".intercalate (← renderAll arguments) ++ ")"
  | d => .error (.showing d (.unwritable d))

/-- The expression of each datum. -/
def renderAll : List Datum → Except Fault (List String)
  | [] => .ok []
  | x :: xs => do
    let s ← render x
    let ss ← renderAll xs
    return s :: ss

/-- Each entry as a key and a value about a colon. -/
def renderEntries : List (Datum × Datum) → Except Fault (List String)
  | [] => .ok []
  | (k, v) :: es => do
    let key ← render k
    let value ← render v
    let rest ← renderEntries es
    return (key ++ " : " ++ value) :: rest

/-- Each argument as its name and its value about an equals sign. -/
def renderArguments : List (String × Datum) → Except Fault (List String)
  | [] => .ok []
  | (n, v) :: es => do
    let value ← render v
    let rest ← renderArguments es
    return (n ++ " = " ++ value) :: rest

end

/-- The call that loads names from an extension file. -/
def loadCall (extension : String) (names : List String) : Datum :=
  .call "load" (.str extension :: names.map .str)

/-- The call that makes all targets of a package visible. -/
def packageCall : Datum :=
  .call "package" [.named [("default_visibility", .texts ["//visibility:public"])]]

end BuildFiles.Datum
