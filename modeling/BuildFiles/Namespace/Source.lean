import BuildFiles.Namespace.Declaration
import BuildFiles.Namespace.Platform
import BuildFiles.Reader.Forms

/-!
# Declarations in source texts

The declaration that a text starts with. A text that cannot be read is a fault of its declaration
if it visibly opens one, and otherwise a fault of the source, which can be passed over.
-/

namespace BuildFiles

namespace Source

/-- The text after blanks, commas, comments and lines that start with `#!`. -/
def skipTrivia : List Char → List Char
  | [] => []
  | '#' :: '!' :: cs => skipLine cs
  | c :: cs =>
    if Text.isBlank c || c == ',' then skipTrivia cs
    else if c = ';' then skipLine cs
    else c :: cs
where
  /-- The text after the rest of a line, and after what may be skipped then. -/
  skipLine : List Char → List Char
  | [] => []
  | c :: cs => if c = '\n' then skipTrivia cs else skipLine cs

/-- The text visibly opens a declaration of a namespace. -/
def opensDeclaration (text : String) : Bool :=
  match skipTrivia text.toList with
  | '(' :: cs =>
    match cs.dropWhile Text.isBlank with
    | 'n' :: 's' :: c :: _ => Text.isBlank c || c == ',' || c == ')'
    | _ => false
  | _ => false

/-- The fault of a source text that cannot be read. -/
def fault (text source : String) : ReadFault → Fault
  | .malformed cause line =>
    if opensDeclaration text then .declaration source (.malformed cause line)
    else .source source (.malformed cause line)
  | other => .reading other

/-- The declaration that a text starts with, none if its first form is no declaration. -/
def declaration? (text source : String) (platform : Platform) :
    Except Fault (Option Declaration) :=
  match Reader.first text platform.features with
  | .error e => .error (fault text source e)
  | .ok form =>
    if Declaration.isForm form then (Declaration.ofForm form source).map some else .ok none

/-- The fault lets a file be passed over while files are gone through. -/
def isSkippable : Fault → Bool
  | .source .. | .declaration .. => true
  | _ => false

end Source

end BuildFiles
