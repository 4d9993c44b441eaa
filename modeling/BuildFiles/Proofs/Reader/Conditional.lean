import BuildFiles.Proofs.Reader.Concatenation
import BuildFiles.Proofs.Reader.Spelling

/-!
# Reader conditionals

The branches of a reader conditional are read as one list, whatever they hold, before the first of
the features that is on selects a form: `forms_conditional`. A text that can be read to its end is
read the same on lines of its own inside a bracket (`isRead_items_of_formsFrom`), so that the list
is that of the features and the forms of the branches.
-/

namespace BuildFiles.Reader

variable {features : List String} {cs rest u : List Char}

/-- The forms of a text are items of the bracket that it stands in, on lines of its own. -/
theorem isRead_items_of_formsFrom {ds ds' : List Datum} {delimiter : Char}
    (h : formsFrom features cs = (ds, none))
    (hitems : (Part.items ds' delimiter).IsRead features u rest) :
    (Part.items (ds ++ ds') delimiter).IsRead features (cs ++ '\n' :: u) rest := by
  intro b opened items frames hb
  fun_induction formsFrom features cs generalizing ds items with
  | case1 cs stop hstop => cases h
  | case2 cs hend =>
    cases h
    exact (advance_append_lineFeed (.collecting b opened items :: frames) hend).trans
      (hitems b opened items frames hb)
  | case3 cs d rest' hd ds stop hrest ih =>
    cases h
    refine (advance_append_lineFeed (.collecting b opened items :: frames) hd).trans ?_
    -- the bracket takes the form in, and the other forms come after it
    refine (ih hrest (d :: items)).trans ?_
    rw [List.cons_append, List.reverse_cons, List.append_assoc]
    rfl

/-! ## Branches -/

/-- A branch of a reader conditional: a feature, which is a keyword without a name space, and a text
that holds one form. -/
structure Branch (features : List String) where
  feature : String
  text : String
  form : Datum
  isToken : IsToken (.keyword (.plain feature)) (':' :: feature.toList)
  isForm : forms text features = ([form], none)

namespace Branch

/-- The branch is selected unless one before it is. -/
def isOn (b : Branch features) : Bool := features.contains b.feature || b.feature == "default"

/-- The feature and the form, and the end of the line. -/
def clause (b : Branch features) : String := ":" ++ b.feature ++ " " ++ b.text ++ "\n"

/-- What the branch is read as. -/
def items (b : Branch features) : List Datum := [.keyword (.plain b.feature), b.form]

/-- The form of the first branch that is on. -/
def selected? (branches : List (Branch features)) : Option Datum :=
  (branches.find? isOn).map form

/-- A branch is on if its feature is one of the reader, or is the default. -/
theorem isOn_iff {b : Branch features} :
    b.isOn = true ↔ features.contains b.feature = true ∨ b.feature = "default" := by
  rw [isOn, Bool.or_eq_true, beq_iff_eq]

/-- The first branch that is on is selected. -/
theorem selected?_cons (b : Branch features) (branches : List (Branch features)) :
    selected? (b :: branches) = if b.isOn then some b.form else selected? branches := by
  rw [selected?, List.find?_cons]
  cases hb : b.isOn <;> rfl

/-- The text of a branch is read as its form. -/
theorem formsFrom_text (b : Branch features) :
    formsFrom features b.text.toList = ([b.form], none) := by
  obtain ⟨hds, hstop⟩ := Prod.mk.inj b.isForm
  exact Prod.ext hds (Option.map_eq_none_iff.1 hstop)

/-- A clause is read as the feature and the form, whatever items come after it. -/
theorem isRead_clause (b : Branch features) {ds : List Datum} {delimiter : Char}
    (h : (Part.items ds delimiter).IsRead features u rest) :
    (Part.items (b.items ++ ds) delimiter).IsRead features (b.clause.toList ++ u) rest := by
  have htext : b.clause.toList ++ u =
      ':' :: b.feature.toList ++ (' ' :: (b.text.toList ++ '\n' :: u)) := by
    simp [clause]
  have hfeature : (Part.form (.keyword (.plain b.feature))).IsRead features (b.clause.toList ++ u)
      (' ' :: (b.text.toList ++ '\n' :: u)) := by
    rw [htext]
    exact isRead_of_spells (.token b.isToken (endsToken_cons rfl _))
  have hblank : Part.trivia.IsRead features (' ' :: (b.text.toList ++ '\n' :: u))
      (b.text.toList ++ '\n' :: u) := isRead_of_spells (.blank rfl (.nothing _))
  have hform := isRead_items_of_formsFrom b.formsFrom_text h
  exact isRead_item (fun _ => rfl) hfeature (isRead_items_of_trivia hblank hform)

/-- All clauses are read, up to the closing bracket. -/
theorem isRead_clauses (branches : List (Branch features)) (delimiter : Char) :
    (Part.items (branches.flatMap items) delimiter).IsRead features
      (branches.flatMap (fun b => b.clause.toList) ++ delimiter :: rest) rest := by
  induction branches with
  | nil => exact isRead_closing fun _ => rfl
  | cons b branches ih =>
    rw [List.flatMap_cons, List.flatMap_cons, List.append_assoc]
    exact b.isRead_clause ih

/-- The item that the form of the selected branch makes. -/
def item (splicing : Bool) (rest : List Char) : Option Datum → Except Stop Item
  | none => .ok .nothing
  | some d =>
    if splicing then
      match d.sequence? with
      | some ds => .ok (.splice ds)
      | none => .error (.malformed .spliceOfNoSequence rest)
    else .ok (.form d)

/-- What is selected among the items that were read is the form of the branch. -/
theorem select_eq_item (splicing : Bool) (branches : List (Branch features)) :
    select features splicing rest (pairs (branches.flatMap items)) =
      item splicing rest (selected? branches) := by
  refine (congrArg (select features splicing rest)
    (pairs_flatMap branches (fun b => .keyword (.plain b.feature)) form)).trans ?_
  induction branches with
  | nil => rfl
  | cons b branches ih =>
    rw [List.map_cons, selected?_cons]
    by_cases hb : b.isOn = true
    · rw [if_pos hb]
      exact if_pos (isOn_iff.1 hb)
    · rw [if_neg hb]
      exact (if_neg (mt isOn_iff.2 hb)).trans ih

/-- There are two items for each branch, so they pair up. -/
theorem length_items (branches : List (Branch features)) :
    (branches.flatMap items).length % 2 = 0 := by
  induction branches with
  | nil => rfl
  | cons b branches ih =>
    rw [List.flatMap_cons, List.length_append, show b.items.length = 2 from rfl]
    omega

/-- So the conditional closes to the form that is selected, or to nothing. -/
theorem closed_conditional (splicing : Bool) (branches : List (Branch features)) :
    closed features (.conditional splicing) (branches.flatMap items) rest =
      item splicing rest (selected? branches) := by
  have hlength := length_items branches
  rw [closed, if_neg (by omega), select_eq_item]

end Branch

/-! ## The conditional -/

/-- The conditional in a vector of its own, with each branch on lines of its own. -/
def conditionalText (splicing : Bool) (branches : List (Branch features)) : String :=
  "[#?" ++ (if splicing then "@" else "") ++ "(" ++ String.join (branches.map Branch.clause) ++ ")]"

theorem toList_conditionalText (splicing : Bool) (branches : List (Branch features)) :
    (conditionalText splicing branches).toList =
      '[' :: '#' :: '?' :: ((if splicing then ['@'] else []) ++
        '(' :: (branches.flatMap (fun b => b.clause.toList) ++ [')', ']'])) := by
  cases splicing <;> simp [conditionalText, List.flatMap_map]

/-- The opening of a conditional is read as one, also of a splicing one. -/
theorem scan_conditional (splicing : Bool) (cs : List Char) :
    scan '#' ('?' :: ((if splicing then ['@'] else []) ++ '(' :: cs)) =
      .ok (.opening (.conditional splicing), cs) := by
  cases splicing <;> rfl

/-- The conditional is read inside of the vector, before the end of which its item is delivered. -/
theorem advance_conditionalText (splicing : Bool) (branches : List (Branch features)) :
    ∃ opened, advance features [] (conditionalText splicing branches).toList =
      resume features [']'] (match Branch.item splicing [']'] (Branch.selected? branches) with
        | .ok item => deliver [']'] item [.collecting .square opened []]
        | .error stop => .error stop) := by
  refine ⟨(conditionalText splicing branches).toList.tail, ?_⟩
  have hclosed : closed features (.conditional splicing) (branches.flatMap Branch.items) [']'] =
      Branch.item splicing [']'] (Branch.selected? branches) :=
    Branch.closed_conditional splicing branches
  rw [toList_conditionalText, List.tail_cons, advance_of_scan (x := .opening .square) rfl rfl]
  refine (advance_of_scan rfl (scan_conditional splicing _)).trans ?_
  refine (Branch.isRead_clauses branches ')' _ _ [] _ rfl).trans ?_
  rw [List.append_nil, close, if_pos (show (Bracket.conditional splicing).closer = ')' from rfl),
    List.reverse_reverse]
  exact hclosed ▸ rfl

/-- The end of the vector, and of the text. -/
theorem formsFrom_of_advance_vector {opened : List Char} {ds : List Datum}
    (h : advance features [] cs = advance features [.collecting .square opened ds] [']']) :
    formsFrom features cs = ([.vector ds.reverse], none) := by
  have hclose : advance features [.collecting .square opened ds] [']'] =
      .ok (some (.vector ds.reverse, [])) :=
    advance_of_scan (skipBlank_closer .square) (scan_closer .square)
  have hend : formsFrom features [] = ([], none) := formsFrom_of_none (advance_of_end rfl)
  rw [formsFrom_of_some (h.trans hclose), hend]

/-- What a vector is read as that holds nothing but a splicing conditional, if that selects the form
and is closed on the given line. -/
def spliced (line : Nat) : Option Datum → List Datum × Option ReadFault
  | none => ([.vector []], none)
  | some d =>
    match d.sequence? with
    | some ds => ([.vector ds], none)
    | none => ([], some (.malformed .spliceOfNoSequence line))

/-- The conditional in a vector is read as the vector of the form that is selected. -/
theorem forms_conditionalText (branches : List (Branch features)) :
    forms (conditionalText false branches) features =
      ([.vector (Branch.selected? branches).toList], none) := by
  obtain ⟨opened, h⟩ := advance_conditionalText false branches
  have hforms : formsFrom features (conditionalText false branches).toList =
      ([.vector (Branch.selected? branches).toList], none) := by
    cases hselected : Branch.selected? branches with
    | none =>
      rw [hselected] at h
      exact formsFrom_of_advance_vector h
    | some d =>
      rw [hselected] at h
      exact formsFrom_of_advance_vector h
  rw [forms, hforms]
  rfl

/-- A splicing one is read as the vector of the items of that form; it is refused if that is no
sequence. -/
theorem forms_conditionalText_splicing (branches : List (Branch features)) :
    forms (conditionalText true branches) features =
      spliced (Text.lineFeeds (conditionalText true branches).toList + 1)
        (Branch.selected? branches) := by
  obtain ⟨opened, h⟩ := advance_conditionalText true branches
  cases hselected : Branch.selected? branches with
  | none =>
    rw [hselected] at h
    rw [forms, formsFrom_of_advance_vector h]
    rfl
  | some d =>
    cases hd : d.sequence? with
    | some ds =>
      rw [hselected, Branch.item, if_pos rfl, hd] at h
      rw [forms, formsFrom_of_advance_vector h, spliced, hd, List.append_nil, List.reverse_reverse]
      rfl
    | none =>
      rw [hselected, Branch.item, if_pos rfl, hd] at h
      rw [forms, formsFrom_of_error h, spliced, hd]
      change ([], some (ReadFault.malformed _ (lineAt _ [']']))) = _
      rw [lineAt, Nat.add_comm, show Text.lineFeeds [']'] = 0 from rfl, Nat.sub_zero]

/-- A reader conditional is read as the form of its first branch whose feature is on or `default`,
and as nothing if there is none; a splicing one is read as the items of that form, which has to be a
list or a vector. What the other branches hold makes no difference, except for the line that a fault
is told to be on. -/
theorem forms_of_branches (branches : List (Branch features)) :
    forms (conditionalText false branches) features =
        ([.vector (Branch.selected? branches).toList], none) ∧
      forms (conditionalText true branches) features =
        spliced (Text.lineFeeds (conditionalText true branches).toList + 1)
          (Branch.selected? branches) ∧
      ∀ branches' : List (Branch features),
        Branch.selected? branches' = Branch.selected? branches →
          forms (conditionalText false branches') features =
              forms (conditionalText false branches) features ∧
            (forms (conditionalText true branches') features).1 =
              (forms (conditionalText true branches) features).1 ∧
            (forms (conditionalText true branches') features).2.isSome =
              (forms (conditionalText true branches) features).2.isSome := by
  refine ⟨forms_conditionalText branches, forms_conditionalText_splicing branches, ?_⟩
  intro branches' h
  rw [forms_conditionalText, forms_conditionalText, forms_conditionalText_splicing,
    forms_conditionalText_splicing, h]
  refine ⟨rfl, ?_⟩
  -- only the line in the fault is another one
  cases Branch.selected? branches with
  | none => exact ⟨rfl, rfl⟩
  | some d =>
    rw [spliced, spliced]
    cases d.sequence? with
    | none => exact ⟨rfl, rfl⟩
    | some ds => exact ⟨rfl, rfl⟩

/-- A feature is a keyword. -/
theorem isToken_feature {feature : String} (hne : feature.toList ≠ [])
    (htoken : feature.toList.all isTokenChar = true) (hmark : feature.toList.head? ≠ some ':')
    (hplain : Name.parse feature = .plain feature) :
    IsToken (.keyword (.plain feature)) (':' :: feature.toList) := by
  have h := IsToken.keyword hne (List.all_eq_true.1 htoken) hmark
  rwa [String.ofList_toList, hplain] at h

/-- Branches of which the second is on, with a conditional, discards and a comment in them. -/
def twoOn : List (Branch ["clj"]) :=
  [⟨"cljs", "#_ a #?(:clj (1 2)) ; b", .list [.int 1, .int 2],
      isToken_feature (by decide) (by decide) (by decide) (by decide), by with_unfolding_all rfl⟩,
    ⟨"clj", "[x\n #_ y]", .vector [.sym "x"],
      isToken_feature (by decide) (by decide) (by decide) (by decide), by with_unfolding_all rfl⟩,
    ⟨"default", "z", .sym "z",
      isToken_feature (by decide) (by decide) (by decide) (by decide), by with_unfolding_all rfl⟩]

theorem forms_of_branches_twoOn :
    forms "[#?(:cljs #_ a #?(:clj (1 2)) ; b\n:clj [x\n #_ y]\n:default z\n)]" ["clj"] =
        ([.vector [.vector [.sym "x"]]], none) ∧
      forms "[#?@(:cljs #_ a #?(:clj (1 2)) ; b\n:clj [x\n #_ y]\n:default z\n)]" ["clj"] =
        ([.vector [.sym "x"]], none) ∧
      forms (conditionalText false twoOn.tail) ["clj"] =
        forms (conditionalText false twoOn) ["clj"] := by
  obtain ⟨hplain, hsplicing, hother⟩ := forms_of_branches twoOn
  exact ⟨hplain, hsplicing, (hother twoOn.tail rfl).1⟩

end BuildFiles.Reader
