import BuildFiles.Namespace.Source
import BuildFiles.Proofs.Computation
import BuildFiles.Proofs.Reader.Invariant
import BuildFiles.Proofs.Reader.Symbol

/-!
# The names of declarations

A symbol that is read is a token of the text, or it stands for a mark before a form, and then it is
one of a few names. So what is read holds no symbols but those whose names are tokens
(`isSpelled_of_advance`), and a declaration has a name that is read as one symbol again:
`isToken_of_declaration?`.
-/

namespace BuildFiles

namespace Reader

variable {features : List String} {cs rest : List Char} {d : Datum} {ds : List Datum} {n : Name}
  {attached : List (Datum × Datum)}

/-! ## Symbols that can be written -/

/-- The name of the symbol is a token that is read as the symbol. -/
def IsSpelledName (n : Name) : Prop := IsToken (.symbol (.parse n.text) []) n.text.toList

/-- The symbols of a datum, down to the items of sequences, can be written. -/
inductive IsSpelled : Datum → Prop
  | symbol {n : Name} {attached : List (Datum × Datum)} (h : IsSpelledName n) :
      IsSpelled (.symbol n attached)
  | list {ds : List Datum} (h : ∀ d ∈ ds, IsSpelled d) : IsSpelled (.list ds)
  | vector {ds : List Datum} (h : ∀ d ∈ ds, IsSpelled d) : IsSpelled (.vector ds)
  | other {d : Datum} (hsymbol : d.isSymbol = false) (hsequence : d.sequence? = none) : IsSpelled d

theorem IsSpelled.name (h : IsSpelled (.symbol n attached)) : IsSpelledName n := by
  cases h with
  | symbol h => exact h
  | other hsymbol _ => cases hsymbol

theorem IsSpelled.items (h : IsSpelled d) (hd : d.sequence? = some ds) :
    ∀ d ∈ ds, IsSpelled d := by
  cases h with
  | symbol _ => cases hd
  | list h =>
    cases hd
    exact h
  | vector h =>
    cases hd
    exact h
  | other _ hsequence =>
    rw [hsequence] at hd
    cases hd

/-- The symbols that stand for marks can be written. -/
theorem isSpelled_sym {head : String} (h : head ∈ "fn*" :: wrappingHeads) :
    IsSpelled (.sym head) := by
  have htoken : IsSymbol [] head := by
    refine isSymbol_of_token ?_
    revert head
    decide
  exact .symbol (isToken_of_isSymbol htoken)

/-- The symbols that are scanned can be written: a token was cut out of the text for each of
them. -/
theorem isSpelled_of_scan {c : Char} (h : scan c cs = .ok (.atom d, rest)) : IsSpelled d := by
  by_cases hsymbol : d.isSymbol = true
  · cases d with
    | symbol n attached =>
      obtain ⟨-, hn, htoken⟩ := isToken_of_scan h
      refine .symbol ?_
      rw [hn] at htoken ⊢
      rwa [IsSpelledName, Name.text_parse, String.toList_ofList]
    | _ => cases hsymbol
  · exact .other (Bool.eq_false_iff.2 hsymbol) (sequence?_of_isLiteral (scan_isFrom h))

/-- Reading makes no symbols but those that can be written. -/
theorem isKept_isSpelled : IsKept IsSpelled where
  atom := isSpelled_of_scan
  sym := isSpelled_sym
  list := .list
  vector := .vector
  items hd h := h.items hd
  set _ h := by
    unfold setOf at h
    split at h <;> cases h
    exact .other rfl rfl
  map _ _ := .other rfl rfl
  qualified _ _ := .other rfl rfl
  attached h _ _ := .symbol h.name
  tagged _ _ := .other rfl rfl

/-- What is read holds no symbols but those that can be written. -/
theorem isSpelled_of_advance (h : advance features [] cs = .ok (some (d, rest))) : IsSpelled d :=
  isKept_isSpelled.of_advance (fun _ _ => .other rfl rfl) (List.forall_mem_nil _) h

end Reader

namespace Source

open Reader

theorem exists_of_ofForm {form : Datum} {source : String} {d : Declaration}
    (h : Declaration.ofForm form source = .ok d) :
    ∃ head n attached body,
      form = .list (head :: .symbol n attached :: body) ∧ d.name = n.text := by
  unfold Declaration.ofForm at h
  dsimp only at h
  split at h
  · split at h
    · split at h
      · cases h
        exact ⟨_, _, _, _, rfl, rfl⟩
      · cases h
    · cases h
  · cases h

theorem isSpelled_of_first {text : String} {features : List String} {form : Datum}
    (h : first text features = .ok form) : IsSpelled form := by
  rw [first] at h
  split at h
  · next hform =>
    cases h
    exact isSpelled_of_advance hform
  · cases h
    exact .other rfl rfl
  · cases h

/-- The name of a declaration is a token that is read as one symbol. -/
theorem isToken_of_declaration? {text source : String} {platform : Platform} {d : Declaration}
    (h : declaration? text source platform = .ok (some d)) :
    IsToken (.symbol (.parse d.name) []) d.name.toList := by
  rw [declaration?] at h
  split at h
  · cases h
  · next form hform =>
    split_ifs at h
    · obtain ⟨d', hd', hsome⟩ := Except.map_eq_ok h
      obtain rfl := Option.some.inj hsome
      obtain ⟨head, n, attached, body, rfl, hname⟩ := exists_of_ofForm hd'
      have hsymbol := (isSpelled_of_first hform).items rfl (.symbol n attached) (by simp)
      rw [hname]
      exact hsymbol.name
    · cases h

end Source

end BuildFiles
