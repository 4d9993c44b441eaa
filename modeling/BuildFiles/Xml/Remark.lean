import BuildFiles.Xml.Name

/-!
# Remarks of XML

Comments and instructions, which say nothing about a document. They may stand in its content and
about it, and between the declarations of its type.
-/

namespace BuildFiles.Xml

/-- The characters before the first run of `mark`, and those after it. -/
def upTo? (mark : List Char) : List Char → Option (List Char × List Char)
  | [] => none
  | c :: cs =>
    if mark.isPrefixOf (c :: cs) then some ([], (c :: cs).drop mark.length)
    else (upTo? mark cs).map fun (before, after) => (c :: before, after)

/-- The text after a comment, which holds no two hyphens. -/
def afterComment? (cs : List Char) : Option (List Char) := do
  let (body, rest) ← upTo? "--".toList cs
  guard (body.all isChar)
  match rest with
  | '>' :: rest => return rest
  | _ => none

/-- The text after an instruction, whose target is not the name of the language. -/
def afterInstruction? (cs : List Char) : Option (List Char) := do
  let (target, rest) ← baseName? cs
  guard (target.toLower ≠ "xml")
  let (body, after) ← upTo? "?>".toList rest
  guard (body.all isChar && (body.head?.all isBlank))
  return after

/-- The text after a remark, nothing if there is none or it has no end. -/
def afterRemark? : List Char → Option (List Char)
  | '<' :: '!' :: '-' :: '-' :: rest => afterComment? rest
  | '<' :: '?' :: rest => afterInstruction? rest
  | _ => none

/-- The text after at most `fuel` remarks, with blanks about them. -/
def afterRemarks : Nat → List Char → List Char
  | 0, cs => skipBlanks cs
  | fuel + 1, cs =>
    match afterRemark? (skipBlanks cs) with
    | some rest => afterRemarks fuel rest
    | none => skipBlanks cs

end BuildFiles.Xml
