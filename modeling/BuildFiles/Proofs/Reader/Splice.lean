import BuildFiles.Proofs.Entries
import BuildFiles.Proofs.Reader.Conditional
import BuildFiles.Proofs.Reader.Invariant
import Mathlib.Logic.Relation

/-!
# Splices that are left in forms

A splicing reader conditional should be taken in by the collection around it, and where there is
none the reader stops. But it does not look for the conditional where a mark or a tag waits for a
form: there the items become a datum of their own, which is left in what is read
(`Reader.exists_of_isExposed`). The forms of all other texts hold no such datum at any depth:
`Reader.isSpliceless_of_forms`.
-/

namespace BuildFiles

namespace Datum

variable {d : Datum} {ds : List Datum} {es es' : List (Datum × Datum)} {n : Name}

/-! ## Keys that stand for others -/

/-- Lists have the property if the data in them do, and the data in vectors and maps if these do. -/
structure IsKeptByFreezing (P : Datum → Prop) : Prop where
  list (ds : List Datum) : (∀ d ∈ ds, P d) → P (.list ds)
  vector (ds : List Datum) : P (.vector ds) → ∀ d ∈ ds, P d
  map (es : List (Datum × Datum)) : P (.map es) → ∀ e ∈ es, P e.1 ∧ P e.2

mutual

/-- Then the key that a datum stands for has the property if the datum does. -/
theorem holds_frozen {P : Datum → Prop} (hP : IsKeptByFreezing P) (d : Datum) (h : P d) :
    P d.frozen := by
  unfold frozen
  split
  · next ds => exact hP.list _ (holds_frozenAll hP ds (hP.vector ds h))
  · next es => exact hP.list _ (holds_frozenEntries hP es (hP.map es h))
  · exact h

theorem holds_frozenAll {P : Datum → Prop} (hP : IsKeptByFreezing P) :
    ∀ ds : List Datum, (∀ d ∈ ds, P d) → ∀ d ∈ frozenAll ds, P d
  | [], _ => nofun
  | d :: ds, h => by
    obtain ⟨hd, hds⟩ := List.forall_mem_cons.1 h
    exact List.forall_mem_cons.2 ⟨holds_frozen hP d hd, holds_frozenAll hP ds hds⟩

theorem holds_frozenEntries {P : Datum → Prop} (hP : IsKeptByFreezing P) :
    ∀ es : List (Datum × Datum), (∀ e ∈ es, P e.1 ∧ P e.2) → ∀ d ∈ frozenEntries es, P d
  | [], _ => nofun
  | (k, v) :: es, h => by
    obtain ⟨⟨hk, hv⟩, hes⟩ := List.forall_mem_cons.1 h
    have hentry : P (.list [k, v.frozen]) := hP.list _
      (List.forall_mem_cons.2 ⟨hk, List.forall_mem_singleton.2 (holds_frozen hP v hv)⟩)
    exact List.forall_mem_cons.2 ⟨hentry, holds_frozenEntries hP es hes⟩

end

/-! ## Data within data -/

/-- The keys and values of the entries. -/
def entryParts (es : List (Datum × Datum)) : List Datum := es.flatMap fun e => [e.1, e.2]

/-- The data that a datum is directly put together from. -/
def parts : Datum → List Datum
  | .list ds | .vector ds | .set ds | .splice ds | .call _ ds => ds
  | .map es | .symbol _ es => entryParts es
  | .tagged _ es form => form :: entryParts es
  | .named arguments => arguments.map Prod.snd
  | _ => []

/-- The first datum is the second, or lies in it at some depth. -/
def LiesIn : Datum → Datum → Prop := Relation.ReflTransGen fun d e => d ∈ e.parts

/-- There is no splice in the datum, at any depth. -/
def IsSpliceless (d : Datum) : Prop := ∀ ds, ¬ LiesIn (.splice ds) d

/-- No splice is in the parts of a datum that has none. -/
theorem IsSpliceless.parts (h : d.IsSpliceless) : ∀ e ∈ d.parts, e.IsSpliceless :=
  fun _ he ds hds => h ds (hds.tail he)

/-- A datum that is no splice has none in it if its parts have none. -/
theorem isSpliceless_of_parts (hne : ∀ ds, d ≠ .splice ds) (h : ∀ e ∈ d.parts, e.IsSpliceless) :
    d.IsSpliceless := by
  intro ds hds
  rcases (Relation.ReflTransGen.cases_tail_iff _ _ _).1 hds with rfl | ⟨e, hds, he⟩
  · exact hne ds rfl
  · exact h e he ds hds

/-- The keys and the values of the entries have the property. -/
theorem forall_entryParts {P : Datum → Prop} :
    (∀ d ∈ entryParts es, P d) ↔ ∀ e ∈ es, P e.1 ∧ P e.2 := by
  simp only [entryParts, List.forall_mem_flatMap, List.mem_cons, List.not_mem_nil, or_false,
    forall_eq_or_imp, forall_eq]

theorem isSpliceless_of_isLiteral (h : Reader.isLiteral d = true) : d.IsSpliceless := by
  refine isSpliceless_of_parts ?_ ?_
  · rintro ds rfl
    cases h
  · have hparts : d.parts = [] := by
      unfold Reader.isLiteral at h
      split at h <;> first | rfl | cases h
    rw [hparts]
    nofun

/-- A map has no splice if its keys and values have none. -/
theorem isSpliceless_map (h : ∀ e ∈ es, e.1.IsSpliceless ∧ e.2.IsSpliceless) :
    IsSpliceless (.map es) :=
  isSpliceless_of_parts nofun (forall_entryParts.2 h)

/-- The keys and values of such a map have none. -/
theorem IsSpliceless.entries (h : IsSpliceless (.map es)) :
    ∀ e ∈ es, e.1.IsSpliceless ∧ e.2.IsSpliceless :=
  forall_entryParts.1 h.parts

/-- The key that a datum stands for holds no splices but those of the datum. -/
theorem isKeptByFreezing_isSpliceless : IsKeptByFreezing IsSpliceless where
  list _ h := isSpliceless_of_parts nofun h
  vector _ h := h.parts
  map _ := IsSpliceless.entries

theorem isSpliceless_symbol (h : ∀ e ∈ es, e.1.IsSpliceless ∧ e.2.IsSpliceless) :
    IsSpliceless (.symbol n es) :=
  isSpliceless_of_parts nofun (forall_entryParts.2 h)

theorem IsSpliceless.attached (h : IsSpliceless (.symbol n es)) :
    ∀ e ∈ es, e.1.IsSpliceless ∧ e.2.IsSpliceless :=
  forall_entryParts.1 h.parts

end Datum

namespace Reader

open Datum

variable {features : List String} {cs rest : List Char} {frames : List Frame} {d : Datum}
  {ds : List Datum} {es : Entries Datum Datum} {text : String}

/-! ## Reading -/

/-- No splice comes into a set that is made of data without. -/
theorem isSpliceless_of_setOf (hds : ∀ d ∈ ds, d.IsSpliceless) (h : setOf ds = .ok d) :
    d.IsSpliceless := by
  unfold setOf elementsOf? at h
  split at h
  · next elements helements =>
    cases h
    split_ifs at helements
    cases helements
    refine isSpliceless_of_parts nofun fun e he => ?_
    obtain ⟨d, hd, rfl⟩ := List.mem_map.1 (mem_of_mem_eraseDups he)
    exact holds_frozen isKeptByFreezing_isSpliceless d (hds d hd)
  · cases h

/-- No splice comes into a map that is made of data without. -/
theorem isSpliceless_of_mapOf (hds : ∀ d ∈ ds, d.IsSpliceless) (h : mapOf ds rest = .ok es) :
    IsSpliceless (.map es) := by
  unfold mapOf entriesOf? at h
  split_ifs at h
  split at h
  · next es' hes =>
    cases h
    dsimp only at hes
    split_ifs at hes
    cases hes
    refine isSpliceless_map (Entries.forall_insertAll (List.forall_mem_nil _) ?_)
    rw [List.forall_mem_map]
    rintro ⟨k, v⟩ he
    obtain ⟨hk, hv⟩ := mem_of_mem_pairs he
    exact ⟨holds_frozen isKeptByFreezing_isSpliceless k (hds k hk), hds v hv⟩
  · cases h

theorem isSpliceless_qualifiedKey (space : String) (h : d.IsSpliceless) :
    (qualifiedKey space d).IsSpliceless := by
  unfold qualifiedKey
  split
  · split <;> exact isSpliceless_of_isLiteral rfl
  · exact h

/-- Metadata that is attached has no more splices than what it is written as. -/
theorem isSpliceless_of_metadataEntries? {es : List (Datum × Datum)} (h : d.IsSpliceless)
    (hes : metadataEntries? d = some es) : ∀ e ∈ es, e.1.IsSpliceless ∧ e.2.IsSpliceless := by
  unfold metadataEntries? at hes
  split at hes <;> cases hes
  · exact h.entries
  · exact List.forall_mem_singleton.2
      ⟨isSpliceless_of_isLiteral rfl, isSpliceless_of_isLiteral rfl⟩
  · exact List.forall_mem_singleton.2 ⟨isSpliceless_of_isLiteral rfl, h⟩
  · exact List.forall_mem_singleton.2
      ⟨isSpliceless_of_isLiteral rfl, isSpliceless_of_isLiteral rfl⟩

/-- Reading makes no splices but of the items that a mark or a tag takes in. -/
theorem isKept_isSpliceless : IsKept IsSpliceless where
  atom h := isSpliceless_of_isLiteral (scan_isFrom h)
  sym _ := isSpliceless_of_isLiteral rfl
  list h := isSpliceless_of_parts nofun h
  vector h := isSpliceless_of_parts nofun h
  items := by
    intro d ds hd h
    cases d <;> cases hd <;> exact h.parts
  set := isSpliceless_of_setOf
  map := isSpliceless_of_mapOf
  qualified space h := by
    refine isSpliceless_map (Entries.forall_insertAll (List.forall_mem_nil _) ?_)
    rw [List.forall_mem_map]
    intro e he
    exact ⟨isSpliceless_qualifiedKey space (h.entries e he).1, (h.entries e he).2⟩
  attached hsymbol hmetadata hes := isSpliceless_symbol
    (Entries.forall_insertAll hsymbol.attached (isSpliceless_of_metadataEntries? hmetadata hes))
  tagged hsymbol hform :=
    isSpliceless_of_parts nofun (List.forall_mem_cons.2 ⟨hform, hsymbol.parts⟩)

/-- Items that are handed to a mark or a tag do become a part of the form that it makes. -/
theorem exists_of_isExposed (h : isExposed frames = true) (ds : List Datum) (rest : List Char) :
    ∃ form outer, outer <:+ frames ∧ LiesIn (.splice ds) form ∧
      deliver rest (.splice ds) frames = deliver rest (.form form) outer := by
  induction frames with
  | nil => cases h
  | cons f frames ih =>
    cases f with
    | wrapping head =>
      refine ⟨.list [.sym head, .splice ds], frames, List.suffix_cons _ _, .single ?_, rfl⟩
      exact List.mem_cons_of_mem _ List.mem_cons_self
    | tagged n attached =>
      refine ⟨.tagged n attached (.splice ds), frames, List.suffix_cons _ _, .single ?_, rfl⟩
      exact List.mem_cons_self
    | target held =>
      obtain ⟨hsome, h⟩ := Bool.and_eq_true_iff.1 h
      obtain ⟨es, hes⟩ := Option.isSome_iff_exists.1 hsome
      obtain ⟨form, outer, houter, hlies, hdeliver⟩ := ih h
      refine ⟨form, outer, houter.trans (List.suffix_cons _ _), hlies, ?_⟩
      rw [deliver, attach, hes, ← hdeliver]
      intro h
      cases h
    | _ => cases h

/-! ## Marks before conditionals -/

/-- The marks that put the next form into a list, and the head of that list. -/
def wrappingMarks : List (String × String) :=
  [("'", "quote"), ("\x60", "syntax-quote"), ("~", "unquote"), ("~@", "unquote-splicing"),
    ("@", "deref"), ("#'", "var")]

/-- A splicing conditional after a mark. -/
def markedText (mark : String) (branches : List (Branch features)) : String :=
  mark ++ "#?@(" ++ String.join (branches.map Branch.clause) ++ ")"

/-- A mark that wraps a form waits for it, and so it does in front of a conditional. -/
theorem advance_mark {mark head : String} (h : (mark, head) ∈ wrappingMarks) :
    advance features [] (mark.toList ++ '#' :: cs) =
      advance features [.wrapping head] ('#' :: cs) := by
  have hscan : ∃ c tail, skipBlank (mark.toList ++ '#' :: cs) = c :: tail ∧
      scan c tail = .ok (.wrapping head, '#' :: cs) := by
    simp only [wrappingMarks, List.mem_cons, List.not_mem_nil, or_false, Prod.mk.injEq] at h
    rcases h with ⟨rfl, rfl⟩ | ⟨rfl, rfl⟩ | ⟨rfl, rfl⟩ | ⟨rfl, rfl⟩ | ⟨rfl, rfl⟩ | ⟨rfl, rfl⟩ <;>
      exact ⟨_, _, rfl, rfl⟩
  obtain ⟨c, tail, hskip, hscan⟩ := hscan
  exact advance_of_scan hskip hscan

/-- The items that the conditional selects are a datum in the list that the mark makes. -/
theorem forms_markedText {mark head : String} (h : (mark, head) ∈ wrappingMarks)
    {branches : List (Branch features)} (hd : Branch.selected? branches = some d)
    (hds : d.sequence? = some ds) :
    forms (markedText mark branches) features = ([.list [.sym head, .splice ds]], none) := by
  have htext : (markedText mark branches).toList = mark.toList ++ '#' :: '?' :: (['@'] ++
      '(' :: (branches.flatMap (fun b => b.clause.toList) ++ [')'])) := by
    simp [markedText, List.flatMap_map]
  have hclosed : closed features (.conditional true) (branches.flatMap Branch.items) [] =
      .ok (.splice ds) := by
    rw [Branch.closed_conditional, hd, Branch.item, if_pos rfl, hds]
  have hadvance : advance features [] (markedText mark branches).toList =
      .ok (some (.list [.sym head, .splice ds], [])) := by
    rw [htext, advance_mark h]
    -- what is left of the conditional at its end is handed to the mark
    refine (advance_of_scan rfl (scan_conditional true _)).trans ?_
    refine (Branch.isRead_clauses branches ')' _ _ [] _ rfl).trans ?_
    rw [List.append_nil, close, if_pos (show (Bracket.conditional true).closer = ')' from rfl),
      List.reverse_reverse, hclosed]
    rfl
  have hend : formsFrom features [] = ([], none) := formsFrom_of_none (advance_of_end rfl)
  rw [forms, formsFrom_of_some hadvance, hend]
  rfl

/-- No splice is left in the forms of a text, at any depth, unless a splicing conditional stands
after a mark or a tag. There its items become a part of what the mark or the tag makes, and so one
is left in the form of such a text. -/
theorem isSpliceless_of_forms (features : List String) :
    (∀ text, strays features [] text.toList = false →
      ∀ d ∈ (forms text features).1, IsSpliceless d) ∧
    (∀ frames, isExposed frames = true → ∀ ds rest, ∃ form outer, outer <:+ frames ∧
      LiesIn (.splice ds) form ∧
        deliver rest (.splice ds) frames = deliver rest (.form form) outer) ∧
    ∀ mark head, (mark, head) ∈ wrappingMarks → ∀ (branches : List (Branch features)) d ds,
      Branch.selected? branches = some d → d.sequence? = some ds →
      forms (markedText mark branches) features = ([.list [.sym head, .splice ds]], none) :=
  ⟨fun _ h => isKept_isSpliceless.of_formsFrom h, fun _ h => exists_of_isExposed h,
    fun _ _ h _ _ _ hd hds => forms_markedText h hd hds⟩

/-- A vector after a mark takes the items of a conditional in, but the mark itself does not. -/
theorem isSpliceless_of_forms_quote :
    (strays ["clj"] [] "'[a #?@(:clj [b])]".toList = false ∧
        ∀ d ∈ (forms "'[a #?@(:clj [b])]" ["clj"]).1, IsSpliceless d) ∧
      forms "'#?@(:clj [x\n #_ y]\n:default z\n)" ["clj"] =
        ([.list [.sym "quote", .splice [.sym "x"]]], none) := by
  obtain ⟨hkept, -, hmarked⟩ := isSpliceless_of_forms ["clj"]
  have hstrays : strays ["clj"] [] "'[a #?@(:clj [b])]".toList = false := by decide +kernel
  refine ⟨⟨hstrays, hkept _ hstrays⟩, ?_⟩
  exact hmarked "'" "quote" (by decide) twoOn.tail (.vector [.sym "x"]) [.sym "x"] rfl rfl

end Reader

end BuildFiles
