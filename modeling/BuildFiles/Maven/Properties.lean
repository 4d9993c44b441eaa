import BuildFiles.Entries
import BuildFiles.Text.Basic

/-!
# Properties in descriptions of libraries

A text may refer to properties as `${name}`. `Properties.expand` replaces the references by the
values of the properties, and those in what results, for at most ten rounds; a reference to a
property that is not defined stays as it is written.
-/

namespace BuildFiles

/-- Properties by their names. -/
abbrev Properties := Entries String String

namespace Properties

/-- Replace each reference once. -/
def substitute (properties : Properties) : List Char → List Char
  | '$' :: '{' :: cs =>
    match _h : Text.cut? '}' cs with
    | some (c :: name, after) =>
      let written := '$' :: '{' :: c :: name ++ ['}']
      let value := (properties.get? (String.ofList (c :: name))).map String.toList
      value.getD written ++ substitute properties after
    | _ => '$' :: '{' :: substitute properties cs
  | c :: cs => c :: substitute properties cs
  | [] => []
termination_by cs => cs.length
decreasing_by
  · have := (Text.cut?_eq_some _h).1
    simp only [this, List.length_append, List.length_cons]
    omega
  all_goals
    simp only [List.length_cons]
    omega

/-- Replace references round after round, for that many rounds or until nothing changes. -/
def rounds (properties : Properties) : Nat → List Char → List Char
  | 0, cs => cs
  | n + 1, cs =>
    let next := substitute properties cs
    if next = cs then cs else rounds properties n next

/-- How many rounds of replacement there are at most. -/
def maxRounds : Nat := 10

/-- The text with references to properties replaced. -/
def expand (properties : Properties) (s : String) : String :=
  String.ofList (rounds properties maxRounds s.toList)

end Properties

end BuildFiles
