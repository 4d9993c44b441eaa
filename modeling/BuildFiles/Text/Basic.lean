import BuildFiles.Text.Blank

/-!
# Text

Cutting, searching and joining text. Each function is given on the list of characters, so that its
laws are laws of lists, and once more on `String` where callers hold strings.
-/

namespace BuildFiles.Text

/-- The text begins with `start`. -/
def startsWith (s start : String) : Bool := start.toList.isPrefixOf s.toList

/-- The text ends with `ending`. -/
def endsWith (s ending : String) : Bool := ending.toList.isSuffixOf s.toList

/-- `part` occurs in the characters as a run. -/
def hasRun (part : List Char) : List Char → Bool
  | [] => part.isEmpty
  | c :: cs => part.isPrefixOf (c :: cs) || hasRun part cs

/-- `part` occurs in the text. -/
def contains (s part : String) : Bool := hasRun part.toList s.toList

/-- The characters before and after the first `sep`, when there is one. -/
def cut? (sep : Char) : List Char → Option (List Char × List Char)
  | [] => none
  | c :: cs => if c = sep then some ([], cs) else (cut? sep cs).map fun (a, b) => (c :: a, b)

/-- The text before and after the first `sep`, when there is one. -/
def cutText? (sep : Char) (s : String) : Option (String × String) :=
  (cut? sep s.toList).map fun (a, b) => (String.ofList a, String.ofList b)

/-- The parts of the text between the occurrences of `sep`. -/
def segments (sep : Char) (s : String) : List String :=
  (s.toList.splitOn sep).map String.ofList

/-- The text without the leading occurrences of `c`. -/
def dropLeading (c : Char) (s : String) : String := String.ofList (s.toList.dropWhile (· == c))

/-- The text without the repetitions of a character at its end. -/
def dropTrailing (c : Char) (s : String) : String :=
  String.ofList (s.toList.reverse.dropWhile (· == c)).reverse

/-- The text with every `c` replaced by `d`. -/
def replaceChar (c d : Char) (s : String) : String :=
  s.map fun x => if x = c then d else x

/-- Each character on its own. -/
def letters (s : String) : List String := s.toList.map String.singleton

/-- Sorted by code points. -/
def sorted (ss : List String) : List String := ss.mergeSort fun a b => decide (a ≤ b)

/-- Sorted by code points, each text once. -/
def sortedOnce (ss : List String) : List String := sorted ss.eraseDups

theorem sorted_perm (ss : List String) : (sorted ss).Perm ss := List.mergeSort_perm _ _

@[simp] theorem mem_sorted {s : String} {ss : List String} : s ∈ sorted ss ↔ s ∈ ss :=
  (sorted_perm ss).mem_iff

@[simp] theorem mem_sortedOnce {s : String} {ss : List String} : s ∈ sortedOnce ss ↔ s ∈ ss := by
  simp [sortedOnce]

theorem cut?_eq_some {sep : Char} {cs before after : List Char}
    (h : cut? sep cs = some (before, after)) : cs = before ++ sep :: after ∧ sep ∉ before := by
  induction cs generalizing before with
  | nil => simp [cut?] at h
  | cons c cs ih =>
    unfold cut? at h
    split at h
    · next hc =>
      obtain ⟨rfl, rfl⟩ := Prod.mk.inj (Option.some.inj h)
      simp [hc]
    · next hc =>
      obtain ⟨⟨a, b⟩, hab, h⟩ := Option.map_eq_some_iff.1 h
      obtain ⟨rfl, rfl⟩ := Prod.mk.inj h
      obtain ⟨rfl, hmem⟩ := ih hab
      exact ⟨rfl, by simp [hmem, Ne.symm hc]⟩

theorem cut?_append {sep : Char} {before after : List Char} (h : sep ∉ before) :
    cut? sep (before ++ sep :: after) = some (before, after) := by
  induction before with
  | nil => rw [List.nil_append, cut?, if_pos rfl]
  | cons c before ih =>
    obtain ⟨hc, hbefore⟩ := not_or.1 (mt List.mem_cons.2 h)
    rw [List.cons_append, cut?, if_neg (Ne.symm hc), ih hbefore]
    rfl

end BuildFiles.Text
