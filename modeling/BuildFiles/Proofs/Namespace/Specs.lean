import BuildFiles.Namespace.Declaration
import BuildFiles.Proofs.Reader.Symbol
import BuildFiles.Proofs.Text

/-!
# Specs of namespaces

The specs of a clause are trees: at a leaf stands a namespace, and a prefix spec puts the beginning
of their names before the specs in it. A spec names the namespaces that are spelled out from its
root to its leaves (`mem_specNames`), and in a longer name it stands for the same with a longer
beginning (`specNames_some`). So what a declaration requires does not depend on how its specs are
grouped or ordered: `requires_of_specs`.
-/

namespace BuildFiles.Declaration

variable {b : Option String} {d d' : Datum} {ds specs specs' : List Datum} {n : Name} {s : String}
  {path : List Name}

/-! ## Kinds of specs -/

/-- The spec names the namespace at its head: it is a symbol, or a sequence in which nothing but
options follow the symbol, and these do not make it a mere alias. -/
inductive IsLeaf : Datum → Name → Prop
  | symbol (n : Name) (attached : List (Datum × Datum)) : IsLeaf (.symbol n attached) n
  | options {d : Datum} {n : Name} {attached : List (Datum × Datum)} {options : List Datum}
      (hd : d.sequence? = some (.symbol n attached :: options))
      (hfirst : ∀ o ∈ options.head?, o.isKeyword = true) (halias : .key "as-alias" ∉ options) :
      IsLeaf d n

/-- The spec is a sequence of specs after the beginning that their names share. -/
structure IsPrefixSpec (d : Datum) (n : Name) (specs : List Datum) : Prop where
  sequence : ∃ attached, d.sequence? = some (.symbol n attached :: specs)
  ne_nil : specs ≠ []
  keywords : ∀ spec ∈ specs, spec.isKeyword = false

/-- The names of a sequence are told by what is in it. -/
theorem specNames_of_sequence (hd : d.sequence? = some ds) (b : Option String) :
    specNames b d = sequenceNames b ds := by
  cases d <;> cases hd <;> rw [specNames]

/-- What is neither a symbol nor a sequence names nothing. -/
theorem specNames_of_other (hsymbol : d.isSymbol = false) (hd : d.sequence? = none)
    (b : Option String) : specNames b d = [] := by
  cases d with
  | symbol => cases hsymbol
  | list => cases hd
  | vector => cases hd
  | _ => rfl

/-- Nor does a sequence that does not start with a symbol. -/
theorem sequenceNames_of_other (h : ∀ n attached rest, ds ≠ .symbol n attached :: rest)
    (b : Option String) : sequenceNames b ds = [] := by
  cases ds with
  | nil => rw [sequenceNames]
  | cons head rest =>
    cases head with
    | symbol n attached => exact absurd rfl (h n attached rest)
    | _ => rfl

theorem any_isKeyword_eq_false :
    ds.any Datum.isKeyword = false ↔ ∀ d ∈ ds, d.isKeyword = false := by
  simp

theorem any_beq_key {k : String} : ds.any (· == .key k) = true ↔ .key k ∈ ds := by
  have hbeq : ∀ d : Datum, (d == .key k) = true ↔ d = .key k := by
    intro d
    change Datum.same d (.keyword (.plain k)) = true ↔ d = .keyword (.plain k)
    cases d <;> simp [Datum.same, Datum.sameNumber, Datum.number?]
  simp only [List.any_eq_true, hbeq, exists_eq_right]

/-- The names of several specs are those of one after the other. -/
theorem allNames_eq_flatMap (b : Option String) (ds : List Datum) :
    allNames b ds = ds.flatMap (specNames b) := by
  induction ds with
  | nil => rw [allNames, List.flatMap_nil]
  | cons d ds ih => rw [allNames, ih, List.flatMap_cons]

/-- A leaf names one namespace: its own name behind the prefix. -/
theorem IsLeaf.specNames_eq (h : IsLeaf d n) (b : Option String) :
    specNames b d = [joined b n] := by
  cases h with
  | symbol n attached => rw [specNames]
  | @options d n attached options hd hfirst halias =>
    rw [specNames_of_sequence hd]
    cases options with
    | nil => rw [sequenceNames]; rfl
    | cons o options =>
      have ho : o.isKeyword = true := hfirst o rfl
      have halias : (o :: options).any (· == .key "as-alias") = false :=
        Bool.eq_false_iff.2 (mt any_beq_key.1 halias)
      simp [sequenceNames, Datum.symbolName?, ho, halias]

/-- A spec with a prefix names what the specs in it do behind that prefix. -/
theorem IsPrefixSpec.specNames_eq (h : IsPrefixSpec d n specs) (b : Option String) :
    specNames b d = allNames (some (joined b n)) specs := by
  obtain ⟨⟨attached, hd⟩, hne, hkeywords⟩ := h
  rw [specNames_of_sequence hd]
  obtain ⟨second, specs, rfl⟩ := List.exists_cons_of_ne_nil hne
  have hany := any_isKeyword_eq_false.2 hkeywords
  simp [sequenceNames, Datum.symbolName?, hany]

/-- A spec is a leaf or a prefix spec, or it names nothing. Which one it is depends on whether it is
a sequence, on what that starts with, and on whether a keyword follows. -/
theorem isLeaf_or_isPrefixSpec (d : Datum) : (∃ n, IsLeaf d n) ∨
    (∃ n specs, IsPrefixSpec d n specs) ∨ ∀ b, specNames b d = [] := by
  rcases hd : d.sequence? with _ | items
  · by_cases hsymbol : d.isSymbol = true
    · cases d with
      | symbol n attached => exact .inl ⟨n, .symbol n attached⟩
      | _ => cases hsymbol
    · exact .inr (.inr (specNames_of_other (Bool.eq_false_iff.2 hsymbol) hd))
  have hnone : (∀ b, sequenceNames b items = []) → ∀ b, specNames b d = [] :=
    fun h b => (specNames_of_sequence hd b).trans (h b)
  by_cases hhead : ∃ n attached rest, items = .symbol n attached :: rest
  swap
  · push Not at hhead
    exact .inr (.inr (hnone (sequenceNames_of_other hhead)))
  obtain ⟨n, attached, rest, rfl⟩ := hhead
  -- what follows the head decides: nothing, something with options in it, or specs
  rcases rest with _ | ⟨second, rest⟩
  · exact .inl ⟨n, .options hd nofun (by simp)⟩
  by_cases hkeywords : (second :: rest).any Datum.isKeyword = true
  · by_cases hleaf : second.isKeyword = true ∧ .key "as-alias" ∉ second :: rest
    · obtain ⟨hsecond, halias⟩ := hleaf
      refine .inl ⟨n, .options hd ?_ halias⟩
      rintro o ⟨⟩
      exact hsecond
    · refine .inr (.inr (hnone fun b => ?_))
      rw [← any_beq_key, not_and_not_right] at hleaf
      unfold sequenceNames
      simp only [Datum.symbolName?]
      rw [if_pos hkeywords, if_neg]
      intro h
      obtain ⟨hsecond, halias⟩ := Bool.and_eq_true_iff.1 h
      rw [hleaf hsecond] at halias
      cases halias
  · refine .inr (.inl ⟨n, second :: rest, ⟨attached, hd⟩, List.cons_ne_nil _ _, ?_⟩)
    exact any_isKeyword_eq_false.1 (Bool.eq_false_iff.2 hkeywords)

/-- The specs in one with a prefix are smaller than it. -/
theorem IsPrefixSpec.sizeOf_lt (h : IsPrefixSpec d n specs) {spec : Datum} (hspec : spec ∈ specs) :
    sizeOf spec < sizeOf d := by
  obtain ⟨⟨attached, hd⟩, -, -⟩ := h
  have hlt := List.sizeOf_lt_of_mem hspec
  cases d <;> cases hd <;> simp <;> omega

/-- What holds of leaves, of prefix specs if it holds of the specs in them, and of what names
nothing, holds of every spec. -/
@[elab_as_elim]
theorem spec_induction {P : Datum → Prop} (leaf : ∀ d n, IsLeaf d n → P d)
    (under : ∀ d n specs, IsPrefixSpec d n specs → (∀ spec ∈ specs, P spec) → P d)
    (other : ∀ d, (∀ b, specNames b d = []) → P d) (d : Datum) : P d := by
  rcases isLeaf_or_isPrefixSpec d with ⟨n, h⟩ | ⟨n, specs, h⟩ | h
  · exact leaf d n h
  · refine under d n specs h fun spec hspec => ?_
    have hlt := h.sizeOf_lt hspec
    exact spec_induction leaf under other spec
  · exact other d h
termination_by sizeOf d

/-! ## Beginnings -/

/-- With a beginning, a spec names what it names without, with the beginning in front. -/
theorem specNames_some (d : Datum) (p : String) :
    specNames (some p) d = (specNames none d).map fun s => p ++ "." ++ s := by
  induction d using spec_induction generalizing p with
  | leaf d n h => rw [h.specNames_eq, h.specNames_eq]; rfl
  | under d n specs h ih =>
    have hall : ∀ q, allNames (some q) specs =
        (allNames none specs).map fun s => q ++ "." ++ s := by
      intro q
      rw [allNames_eq_flatMap, allNames_eq_flatMap, List.map_flatMap]
      exact List.flatMap_congr fun spec hspec => ih spec hspec q
    -- with and without the beginning, it is put before what the specs name with none
    rw [h.specNames_eq, h.specNames_eq, hall, hall, List.map_map]
    refine List.map_congr_left fun s _ => ?_
    simp [joined, String.append_assoc]
  | other d h => rw [h, h]; rfl

/-- Under a prefix specs name what they do without it, with the prefix and a dot in front. -/
theorem allNames_some (ds : List Datum) (p : String) :
    allNames (some p) ds = (allNames none ds).map fun s => p ++ "." ++ s := by
  rw [allNames_eq_flatMap, allNames_eq_flatMap, List.map_flatMap]
  exact List.flatMap_congr fun d _ => specNames_some d p

/-! ## From the root to the leaves -/

/-- The names on the way from the root of a spec to one of its leaves. -/
inductive IsWay : List Name → Datum → Prop
  | leaf {d : Datum} {n : Name} (h : IsLeaf d n) : IsWay [n] d
  | under {d spec : Datum} {n : Name} {specs : List Datum} {path : List Name}
      (h : IsPrefixSpec d n specs) (hspec : spec ∈ specs) (hpath : IsWay path spec) :
      IsWay (n :: path) d

/-- The names with dots between them. -/
def dotted : List Name → String
  | [] => ""
  | [n] => n.text
  | n :: path => n.text ++ "." ++ dotted path

/-- A name on the way comes in front of the others with a dot. -/
theorem dotted_cons (hpath : IsWay path d) (n : Name) :
    dotted (n :: path) = n.text ++ "." ++ dotted path := by
  cases hpath <;> rfl

/-- A spec names what is spelled out on the ways from its root to its leaves. -/
theorem mem_specNames : s ∈ specNames none d ↔ ∃ path, IsWay path d ∧ s = dotted path := by
  constructor
  · intro hs
    induction d using spec_induction generalizing s with
    | leaf d n h =>
      rw [h.specNames_eq, List.mem_singleton] at hs
      exact ⟨[n], .leaf h, hs⟩
    | under d n specs h ih =>
      rw [h.specNames_eq, allNames_some, allNames_eq_flatMap] at hs
      obtain ⟨t, ht, rfl⟩ := List.mem_map.1 hs
      obtain ⟨spec, hspec, ht⟩ := List.mem_flatMap.1 ht
      obtain ⟨path, hpath, rfl⟩ := ih spec hspec ht
      exact ⟨n :: path, .under h hspec hpath, (dotted_cons hpath n).symm⟩
    | other d h =>
      rw [h] at hs
      cases hs
  · rintro ⟨path, hpath, rfl⟩
    induction hpath with
    | leaf h =>
      rw [h.specNames_eq]
      exact List.mem_singleton_self _
    | under h hspec hpath ih =>
      rw [h.specNames_eq, allNames_some, allNames_eq_flatMap, dotted_cons hpath]
      exact List.mem_map.2 ⟨_, List.mem_flatMap.2 ⟨_, hspec, ih⟩, rfl⟩

/-! ## Other spellings of the same specs -/

mutual

/-- A spec under a beginning without prefix specs: one spec for each of its leaves, with the whole
name of the leaf. -/
def flat (p : String) : Datum → List Datum
  | .symbol n attached => [.symbol (.parse (p ++ "." ++ n.text)) attached]
  | .list items => flatSequence p items
  | .vector items => flatSequence p items
  | d => [d]

/-- A spec in a sequence, under a beginning. -/
def flatSequence (p : String) : List Datum → List Datum
  | .symbol n attached :: rest =>
    if rest.isEmpty || rest.any Datum.isKeyword then
      [.vector (.symbol (.parse (p ++ "." ++ n.text)) attached :: rest)]
    else flatAll (p ++ "." ++ n.text) rest
  | items => [.vector items]

/-- The specs under a beginning. -/
def flatAll (p : String) : List Datum → List Datum
  | [] => []
  | d :: ds => flat p d ++ flatAll p ds

end

/-- A text that is parsed as a name is joined to no prefix as it is. -/
theorem joined_parse (s : String) : joined none (.parse s) = s := Name.text_parse s

mutual

/-- A spec that is written out without prefixes names what it named behind the prefix that it was
written out for. -/
theorem allNames_flat (p : String) (d : Datum) :
    allNames none (flat p d) = specNames (some p) d := by
  unfold flat
  split
  · next n attached =>
    rw [allNames_eq_flatMap, List.flatMap_singleton, specNames, specNames, joined_parse]
    rfl
  · next items => rw [allNames_flatSequence p items, specNames]
  · next items => rw [allNames_flatSequence p items, specNames]
  · next hsymbol hlist hvector =>
    have hother : ∀ b, specNames b d = [] := by
      refine specNames_of_other ?_ ?_
      · cases d with
        | symbol n attached => exact absurd rfl (hsymbol n attached)
        | _ => rfl
      · cases d with
        | list items => exact absurd rfl (hlist items)
        | vector items => exact absurd rfl (hvector items)
        | _ => rfl
    rw [allNames_eq_flatMap, List.flatMap_singleton, hother, hother]

/-- A sequence that is written out without prefixes names what it named behind a prefix; the name at
its head is joined to that prefix first. -/
theorem allNames_flatSequence (p : String) (items : List Datum) :
    allNames none (flatSequence p items) = sequenceNames (some p) items := by
  unfold flatSequence
  split
  · next n attached rest =>
    split
    · next h =>
      rw [allNames_eq_flatMap, List.flatMap_singleton, specNames]
      simp only [sequenceNames, Datum.symbolName?, joined_parse]
      cases rest with
      | nil => rfl
      | cons second rest =>
        have hany : (second :: rest).any Datum.isKeyword = true := h
        simp only [hany]
        rfl
    · next h =>
      obtain ⟨hne, hkeywords⟩ : rest ≠ [] ∧ ¬ rest.any Datum.isKeyword = true := by
        simpa [not_or] using h
      have hspec : IsPrefixSpec (.list (.symbol n attached :: rest)) n rest :=
        ⟨⟨attached, rfl⟩, hne, any_isKeyword_eq_false.1 (Bool.eq_false_iff.2 hkeywords)⟩
      have hnames := hspec.specNames_eq (some p)
      rw [specNames] at hnames
      rw [allNames_flatAll, hnames]
      rfl
  · next hitems =>
    have hother := sequenceNames_of_other fun n attached rest h => hitems n attached rest h
    rw [allNames_eq_flatMap, List.flatMap_singleton, specNames, hother, hother]

/-- Several specs name the same, too. -/
theorem allNames_flatAll (p : String) (ds : List Datum) :
    allNames none (flatAll p ds) = allNames (some p) ds := by
  cases ds with
  | nil => rw [flatAll, allNames, allNames]
  | cons d ds =>
    rw [flatAll, allNames_eq_flatMap, List.flatMap_append, ← allNames_eq_flatMap,
      ← allNames_eq_flatMap, allNames_flat p d, allNames_flatAll p ds, allNames]

end

mutual

/-- No prefix is left in what is written out. -/
theorem not_isPrefixSpec_of_mem_flat (p : String) (d : Datum) :
    ∀ spec ∈ flat p d, ∀ n specs, ¬ IsPrefixSpec spec n specs := by
  unfold flat
  split
  · next n attached =>
    rw [List.forall_mem_singleton]
    rintro n specs ⟨⟨attached, hd⟩, -, -⟩
    cases hd
  · next items => exact not_isPrefixSpec_of_mem_flatSequence p items
  · next items => exact not_isPrefixSpec_of_mem_flatSequence p items
  · next hsymbol hlist hvector =>
    rw [List.forall_mem_singleton]
    rintro n specs ⟨⟨attached, hd⟩, -, -⟩
    cases d with
    | list items => exact hlist items rfl
    | vector items => exact hvector items rfl
    | _ => cases hd

theorem not_isPrefixSpec_of_mem_flatSequence (p : String) (items : List Datum) :
    ∀ spec ∈ flatSequence p items, ∀ n specs, ¬ IsPrefixSpec spec n specs := by
  unfold flatSequence
  split
  · next n attached rest =>
    split
    · next h =>
      rw [List.forall_mem_singleton]
      rintro n specs ⟨⟨attached, hd⟩, hne, hkeywords⟩
      obtain ⟨-, rfl⟩ := List.cons.inj (Option.some.inj hd)
      rcases Bool.or_eq_true_iff.1 h with h | h
      · exact hne (List.isEmpty_iff.1 h)
      · rw [any_isKeyword_eq_false.2 hkeywords] at h
        cases h
    · exact not_isPrefixSpec_of_mem_flatAll _ rest
  · next hitems =>
    rw [List.forall_mem_singleton]
    rintro n specs ⟨⟨attached, hd⟩, -, -⟩
    exact hitems n attached specs (Option.some.inj hd)

/-- No prefix specs are left. -/
theorem not_isPrefixSpec_of_mem_flatAll (p : String) (ds : List Datum) :
    ∀ spec ∈ flatAll p ds, ∀ n specs, ¬ IsPrefixSpec spec n specs := by
  cases ds with
  | nil =>
    rw [flatAll]
    exact List.forall_mem_nil _
  | cons d ds =>
    rw [flatAll, List.forall_mem_append]
    exact ⟨not_isPrefixSpec_of_mem_flat p d, not_isPrefixSpec_of_mem_flatAll p ds⟩

end

/-- The specs are spelled in another way: in another order, also in the prefix specs at any depth,
or with the leaves of a prefix spec in its place. -/
inductive Regrouped : List Datum → List Datum → Prop
  | perm {ds ds' : List Datum} (h : ds.Perm ds') : Regrouped ds ds'
  | flatten {d : Datum} {n : Name} {specs : List Datum} (h : IsPrefixSpec d n specs) :
      Regrouped [d] (flatAll n.text specs)
  | under {d d' : Datum} {n : Name} {specs specs' : List Datum} (h : IsPrefixSpec d n specs)
      (h' : IsPrefixSpec d' n specs') (hspecs : Regrouped specs specs') : Regrouped [d] [d']
  | append {ds ds' es es' : List Datum} (h : Regrouped ds ds') (hrest : Regrouped es es') :
      Regrouped (ds ++ es) (ds' ++ es')
  | symm {ds ds' : List Datum} (h : Regrouped ds ds') : Regrouped ds' ds
  | trans {ds ds' ds'' : List Datum} (h : Regrouped ds ds') (h' : Regrouped ds' ds'') :
      Regrouped ds ds''

/-- Specs in another order, or written out, name the same namespaces. -/
theorem Regrouped.mem_allNames (h : Regrouped ds ds') (s : String) :
    s ∈ allNames none ds ↔ s ∈ allNames none ds' := by
  induction h generalizing s with
  | perm h =>
    rw [allNames_eq_flatMap, allNames_eq_flatMap]
    exact (h.flatMap_right _).mem_iff
  | flatten h =>
    rw [allNames_flatAll, allNames_eq_flatMap, List.flatMap_singleton, h.specNames_eq]
    rfl
  | under h h' _ ih =>
    rw [allNames_eq_flatMap, allNames_eq_flatMap, List.flatMap_singleton, List.flatMap_singleton,
      h.specNames_eq, h'.specNames_eq, allNames_some, allNames_some, List.mem_map, List.mem_map]
    simp only [ih]
  | append _ _ ih ih' =>
    rw [allNames_eq_flatMap, allNames_eq_flatMap, List.flatMap_append, List.flatMap_append,
      ← allNames_eq_flatMap, ← allNames_eq_flatMap, ← allNames_eq_flatMap, ← allNames_eq_flatMap,
      List.mem_append, List.mem_append, ih, ih']
  | symm _ ih => exact (ih s).symm
  | trans _ _ ih ih' => exact (ih s).trans (ih' s)

/-- What follows the name of a declaration is spelled in another way: in another order, or with the
specs of a clause spelled so. -/
inductive RegroupedBody : List Datum → List Datum → Prop
  | perm {body body' : List Datum} (h : body.Perm body') : RegroupedBody body body'
  | clause {k : Name} {specs specs' : List Datum} (h : Regrouped specs specs') :
      RegroupedBody [.list (.keyword k :: specs)] [.list (.keyword k :: specs')]
  | append {ds ds' es es' : List Datum} (h : RegroupedBody ds ds') (hrest : RegroupedBody es es') :
      RegroupedBody (ds ++ es) (ds' ++ es')
  | symm {body body' : List Datum} (h : RegroupedBody body body') : RegroupedBody body' body
  | trans {body body' body'' : List Datum} (h : RegroupedBody body body')
      (h' : RegroupedBody body' body'') : RegroupedBody body body''

/-- The namespaces that the clauses among the forms require. -/
def requiredIn (body : List Datum) : List String :=
  (body.filterMap Clause.ofForm?).flatMap Clause.requires

/-- So clauses and specs in another order require the same ones. -/
theorem RegroupedBody.mem_requiredIn {body body' : List Datum} (h : RegroupedBody body body')
    (s : String) : s ∈ requiredIn body ↔ s ∈ requiredIn body' := by
  induction h generalizing s with
  | perm h => exact ((h.filterMap _).flatMap_right _).mem_iff
  | @clause k specs specs' h =>
    have hclause : ∀ specs : List Datum, requiredIn [.list (.keyword k :: specs)] =
        if dependencyClauses.contains k.base then allNames none specs else [] := by
      intro specs
      exact List.append_nil _
    rw [hclause, hclause]
    split
    · exact h.mem_allNames s
    · exact Iff.rfl
  | append _ _ ih ih' =>
    simp only [requiredIn, List.filterMap_append, List.flatMap_append, List.mem_append] at ih ih' ⊢
    rw [ih, ih']
  | symm _ ih => exact (ih s).symm
  | trans _ _ ih ih' => exact (ih s).trans (ih' s)

/-- What is set apart before the clauses is none. -/
theorem filterMap_splitHead (body : List Datum) :
    (splitHead body).2.filterMap Clause.ofForm? = body.filterMap Clause.ofForm? := by
  cases body with
  | nil => rfl
  | cons d rest =>
    cases d with
    | str text =>
      cases rest with
      | nil => rfl
      | cons d rest => cases d <;> rfl
    | _ => rfl

/-- What a declaration requires, in terms of the body of its form. -/
theorem requires_ofForm (head : Datum) (n : Name) (attached : List (Datum × Datum))
    (body : List Datum) (source : String) :
    (ofForm (.list (head :: .symbol n attached :: body)) source).map requires =
      if head == .sym "ns" then .ok (Text.sortedOnce (requiredIn body))
      else .error (.declaration (if source.isEmpty then "<form>" else source) .notDeclaration) := by
  rw [requiredIn, ← filterMap_splitHead]
  unfold ofForm
  dsimp only
  split <;> rfl

/-- A beginning is put in front of all that a spec names, and so a spec names what is spelled out on
the ways from its root to its leaves. What a declaration requires stays the same if the leaves of a
prefix spec are written in its place, each with its whole name, and if clauses or specs are written
in another order. -/
theorem requires_of_specs :
    (∀ p d, specNames (some p) d = (specNames none d).map fun s => p ++ "." ++ s) ∧
    (∀ d s, s ∈ specNames none d ↔ ∃ path, IsWay path d ∧ s = dotted path) ∧
    (∀ p ds, ∀ spec ∈ flatAll p ds, ∀ n specs, ¬ IsPrefixSpec spec n specs) ∧
    ∀ {body body'}, RegroupedBody body body' → ∀ head n attached source,
      (ofForm (.list (head :: .symbol n attached :: body)) source).map requires =
        (ofForm (.list (head :: .symbol n attached :: body')) source).map requires := by
  refine ⟨fun p d => specNames_some d p, fun d s => mem_specNames,
    not_isPrefixSpec_of_mem_flatAll, fun h head n attached source => ?_⟩
  rw [requires_ofForm, requires_ofForm, Text.sortedOnce_congr h.mem_requiredIn]

/-- A prefix spec with another one in it. -/
def grouped : Datum :=
  .vector [.sym "app", .list [.sym "util", .key "as", .sym "u"],
    .vector [.sym "db", .sym "sql", .vector [.sym "kv", .key "as-alias", .sym "kv"]]]

/-- The example has a prefix, with a list and a vector in it. -/
theorem isPrefixSpec_grouped : IsPrefixSpec grouped (.plain "app")
    [.list [.sym "util", .key "as", .sym "u"],
      .vector [.sym "db", .sym "sql", .vector [.sym "kv", .key "as-alias", .sym "kv"]]] where
  sequence := ⟨[], rfl⟩
  ne_nil := List.cons_ne_nil _ _
  keywords := by decide

/-- The specs of one clause are written out, after another clause that comes from behind them. -/
theorem requires_of_specs_grouped :
    let body := [.list [.key "require", .sym "a", grouped], .list [.key "use", .sym "b"]]
    let body' := [.list [.key "use", .sym "b"],
      .list [.key "require", .vector [.sym "app.util", .key "as", .sym "u"], .sym "app.db.sql",
        .vector [.sym "app.db.kv", .key "as-alias", .sym "kv"], .sym "a"]]
    RegroupedBody body body' ∧
      (ofForm (.list (.sym "ns" :: .sym "x" :: body)) "x.clj").map requires =
        (ofForm (.list (.sym "ns" :: .sym "x" :: body')) "x.clj").map requires := by
  intro body body'
  have hflat : flatAll "app" [.list [.sym "util", .key "as", .sym "u"],
      .vector [.sym "db", .sym "sql", .vector [.sym "kv", .key "as-alias", .sym "kv"]]] =
    [.vector [.sym "app.util", .key "as", .sym "u"], .sym "app.db.sql",
      .vector [.sym "app.db.kv", .key "as-alias", .sym "kv"]] := by
    with_unfolding_all rfl
  have hspecs : Regrouped [.sym "a", grouped] [.vector [.sym "app.util", .key "as", .sym "u"],
      .sym "app.db.sql", .vector [.sym "app.db.kv", .key "as-alias", .sym "kv"], .sym "a"] := by
    have happ := Regrouped.flatten isPrefixSpec_grouped
    rw [show (Name.plain "app").text = "app" from rfl, hflat] at happ
    exact .trans (.perm (.swap _ _ [])) (happ.append (.perm (.refl [_])))
  have hbody : RegroupedBody body body' :=
    .trans (.perm (.swap _ _ [])) (.append (.perm (.refl [_])) (.clause hspecs))
  obtain ⟨-, -, -, hrequires⟩ := requires_of_specs
  exact ⟨hbody, hrequires hbody _ _ _ _⟩

end BuildFiles.Declaration
