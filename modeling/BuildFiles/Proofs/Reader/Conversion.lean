import BuildFiles.Manifest.Basic
import BuildFiles.Proofs.LongIntegers
import BuildFiles.Proofs.Reader.Spelling
import BuildFiles.Proofs.Reader.Splice

/-!
# What is read as plain data

Not all that is read has a plain datum. Reading turns a key into something that can be a key at
every depth, while the conversion turns the lists in it back into vectors and then makes a list of
the outermost one only. So a key with a collection inside of another one is read, but does not
convert. A set converts in the order of the texts of its elements, so that one with an integer which
is too long to be written does not convert either. These are the only two obstacles
(`Datum.ends_plain`), and with data that meet neither manifests do not fail in the conversion:
`Reader.plain_of_first`.
-/

namespace BuildFiles

namespace Datum

variable {d e k p v : Datum} {ds ps : List Datum} {es pairs : List (Datum × Datum)}

/-! ## Data that a conversion comes to -/

/-- The data that the conversion of a datum goes on with. What is under a tag stays as it is. -/
def converted : Datum → List Datum
  | .list ds | .vector ds | .set ds => ds
  | .map es => entryParts es
  | _ => []

/-- The conversion of the second datum comes to the first. -/
def IsMetIn : Datum → Datum → Prop := Relation.ReflTransGen fun d e => d ∈ e.converted

/-- All data that the conversion comes to have the property. -/
def Throughout (P : Datum → Prop) (d : Datum) : Prop := ∀ e, IsMetIn e d → P e

/-- What holds throughout holds of the datum, and throughout all that it is converted from. -/
theorem throughout_iff {P : Datum → Prop} :
    d.Throughout P ↔ P d ∧ ∀ e ∈ d.converted, e.Throughout P := by
  refine ⟨fun h => ⟨h d .refl, fun e he f hf => h f (hf.tail he)⟩, fun ⟨hd, hparts⟩ f hf => ?_⟩
  rcases (Relation.ReflTransGen.cases_tail_iff _ _ _).1 hf with rfl | ⟨e, hf, he⟩
  · exact hd
  · exact hparts e he f hf

/-- What holds throughout a datum holds throughout everything that is met in it. -/
theorem Throughout.of_isMetIn {P : Datum → Prop} (h : d.Throughout P) (he : IsMetIn e d) :
    e.Throughout P :=
  fun f hf => h f (hf.trans he)

/-- A datum that is converted as it stands has only itself to answer for. -/
theorem throughout_of_converted_eq_nil {P : Datum → Prop} (hd : P d) (h : d.converted = []) :
    d.Throughout P := by
  rw [throughout_iff, h]
  exact ⟨hd, nofun⟩

theorem sizeOf_lt_of_mem_entryParts (h : d ∈ entryParts es) : sizeOf d < sizeOf es := by
  obtain ⟨⟨k, v⟩, he, hd⟩ := List.mem_flatMap.1 h
  have hlt := List.sizeOf_lt_of_mem he
  rcases List.mem_pair.1 hd with rfl | rfl <;> simp only [Prod.mk.sizeOf_spec] at hlt ⊢ <;> omega

/-- What a datum is converted from is smaller, so that the conversion can be followed by
induction. -/
theorem sizeOf_lt_of_mem_converted (h : e ∈ d.converted) : sizeOf e < sizeOf d := by
  cases d with
  | list ds | vector ds | set ds =>
    have hlt := List.sizeOf_lt_of_mem (show e ∈ ds from h)
    simp; omega
  | map es =>
    have hlt := sizeOf_lt_of_mem_entryParts h
    simp; omega
  | _ => cases h

/-- What holds of a datum if it holds of those that its conversion goes on with, holds of all. -/
@[elab_as_elim]
theorem conversion_induction {P : Datum → Prop} (h : ∀ d, (∀ e ∈ d.converted, P e) → P d)
    (d : Datum) : P d :=
  h d fun e he =>
    have := sizeOf_lt_of_mem_converted he
    conversion_induction h e
termination_by sizeOf d

/-! ## Keys -/

/-- A datum that holds others. -/
def isCollection : Datum → Bool
  | .list _ | .vector _ | .set _ | .map _ => true
  | _ => false

/-- No collection is right inside of the datum. -/
def IsFlat (d : Datum) : Prop := ∀ e ∈ d.converted, e.isCollection = false

/-- If the datum is a map, its keys are flat. -/
def HasFlatKeys : Datum → Prop
  | .map es => ∀ e ∈ es, e.1.IsFlat
  | _ => True

/-- If the datum is a set, none of its elements holds an integer that is too long to be written. -/
def HasShortElements : Datum → Prop
  | .set ds => ∀ d ∈ ds, d.holdsLongInteger = false
  | _ => True

/-- The keys of a map and the elements of a set can be keys. -/
def HoldsKeys : Datum → Prop
  | .map es => ∀ e ∈ es, e.1.keyable = true
  | .set ds => ∀ d ∈ ds, d.keyable = true
  | _ => True

theorem allKeyable_iff : allKeyable ds = true ↔ ∀ d ∈ ds, d.keyable = true := by
  induction ds with
  | nil => exact ⟨fun _ => nofun, fun _ => rfl⟩
  | cons d ds ih => rw [allKeyable, Bool.and_eq_true_iff, ih, List.forall_mem_cons]

/-! ## Items and entries -/

/-- Items are converted one after the other. -/
theorem plainAll_eq_mapM (ds : List Datum) : plainAll ds = ds.mapM plain := by
  induction ds with
  | nil => rfl
  | cons d ds ih => rw [plainAll, List.mapM_cons, ih]

/-- The plain entry of an entry. -/
def plainEntry (e : Datum × Datum) : Except Fault (Datum × Datum) := do
  let k ← e.1.plain
  let v ← e.2.plain
  return (← asPlainKey k, v)

/-- Entries are converted one after the other. -/
theorem plainEntries_eq_mapM (es : List (Datum × Datum)) :
    plainEntries es = es.mapM plainEntry := by
  induction es with
  | nil => rfl
  | cons e es ih =>
    rw [plainEntries, List.mapM_cons, ih, plainEntry]
    simp only [bind_assoc, pure_bind]

/-- What items are converted to corresponds to them, one by one. -/
theorem forall₂_of_plainAll (h : plainAll ds = .ok ps) :
    List.Forall₂ (fun d p => d.plain = .ok p) ds ps :=
  Except.forall₂_of_mapM (plainAll_eq_mapM ds ▸ h)

/-! ## Keys that are converted -/

/-- Of the data that can be keys, the collections convert to vectors, which cannot. -/
theorem keyable_plain (hd : d.keyable = true) (hp : d.plain = .ok p) :
    p.keyable = true ↔ d.isCollection = false := by
  cases d with
  | vector | map | splice => cases hd
  | list ds | set ds =>
    rw [plain] at hp
    obtain ⟨ps, -, hp⟩ := Except.bind_eq_ok hp
    first
      | cases hp
      | obtain ⟨sorted, -, hp⟩ := Except.bind_eq_ok hp
        cases hp
    exact ⟨nofun, nofun⟩
  | _ =>
    cases hp
    exact ⟨fun _ => rfl, fun _ => hd⟩

/-- The items of a plain vector can be keys if none of those that they stand for is a collection. -/
theorem forall_keyable_plainAll (hds : ∀ d ∈ ds, d.keyable = true) (hps : plainAll ds = .ok ps) :
    (∀ p ∈ ps, p.keyable = true) ↔ ∀ d ∈ ds, d.isCollection = false := by
  have hall := forall₂_of_plainAll hps
  constructor
  · intro h d hd
    obtain ⟨p, hp, hplain⟩ := exists_right_of_forall₂ hall hd
    exact (keyable_plain (hds d hd) hplain).1 (h p hp)
  · intro h p hp
    obtain ⟨d, hd, hplain⟩ := exists_left_of_forall₂ hall hp
    exact (keyable_plain (hds d hd) hplain).2 (h d hd)

/-- A key stays one through the conversion just if it is flat. What it holds is converted to vectors
again, and of these only the outermost one is made a list. -/
theorem keyable_plainKey (hkey : k.keyable = true) (hholds : k.HoldsKeys)
    (hp : k.plain = .ok p) : (plainKey p).keyable = true ↔ k.IsFlat := by
  cases k with
  | vector | map | splice => cases hkey
  | list ds =>
    rw [plain] at hp
    obtain ⟨ps, hps, hp⟩ := Except.bind_eq_ok hp
    cases hp
    rw [plainKey, keyable, allKeyable_iff]
    exact forall_keyable_plainAll (allKeyable_iff.1 hkey) hps
  | set ds =>
    rw [plain] at hp
    obtain ⟨ps, hps, hp⟩ := Except.bind_eq_ok hp
    obtain ⟨sorted, hsorted, hp⟩ := Except.bind_eq_ok hp
    cases hp
    obtain rfl := (sortedByText_eq_ok_iff.1 hsorted).2
    rw [plainKey, keyable, allKeyable_iff]
    simp only [List.mem_mergeSort]
    exact forall_keyable_plainAll hholds hps
  | _ =>
    cases hp
    exact ⟨fun _ => List.forall_mem_nil _, fun _ => hkey⟩

/-! ## Elements that are sorted -/

/-- If no conversion of an item adds or drops a long integer, then that of the items does not. -/
theorem anyHoldsLong_plainAll (hps : plainAll ds = .ok ps)
    (h : ∀ d ∈ ds, ∀ p, d.plain = .ok p → p.holdsLongInteger = d.holdsLongInteger) :
    anyHoldsLong ps = anyHoldsLong ds := by
  have hall := forall₂_of_plainAll hps
  clear hps
  induction hall with
  | nil => rfl
  | cons hp _ ih =>
    obtain ⟨hd, hds⟩ := List.forall_mem_cons.1 h
    rw [anyHoldsLong, anyHoldsLong, hd _ hp, ih hds]

/-- In what can be a key there are no maps, so that the conversion drops nothing: it shows a long
integer just where there was one. -/
theorem holdsLongInteger_plain (d : Datum) (hkey : d.keyable = true)
    (hholds : d.Throughout HoldsKeys) (hp : d.plain = .ok p) :
    p.holdsLongInteger = d.holdsLongInteger := by
  induction d using conversion_induction generalizing p with
  | h d ih =>
    obtain ⟨hd, hparts⟩ := throughout_iff.1 hholds
    cases d with
    | vector | map | splice => cases hkey
    | list ds =>
      rw [plain] at hp
      obtain ⟨ps, hps, hp⟩ := Except.bind_eq_ok hp
      cases hp
      exact anyHoldsLong_plainAll hps fun d hd _ =>
        ih d hd (allKeyable_iff.1 hkey d hd) (hparts d hd)
    | set ds =>
      rw [plain] at hp
      obtain ⟨ps, hps, hp⟩ := Except.bind_eq_ok hp
      obtain ⟨sorted, hsorted, hp⟩ := Except.bind_eq_ok hp
      cases hp
      obtain ⟨hshort, rfl⟩ := sortedByText_eq_ok_iff.1 hsorted
      have hds : anyHoldsLong ps = anyHoldsLong ds :=
        anyHoldsLong_plainAll hps fun d hd' _ => ih d hd' (hd d hd') (hparts d hd')
      rw [holdsLongInteger, holdsLongInteger, ← hds, anyHoldsLong_eq_false_iff.2 hshort]
      exact anyHoldsLong_eq_false_iff.2 fun p hp => hshort p (List.mem_mergeSort.1 hp)
    | _ =>
      cases hp
      rfl

/-! ## Whole data -/

/-- No key holds a collection inside of another one, and no set holds a long integer. -/
structure IsConvertible (d : Datum) : Prop where
  flat : d.Throughout HasFlatKeys
  short : d.Throughout HasShortElements

/-- What keeps the datum from converting, by the fault that it comes to. -/
inductive IsObstructedBy (d : Datum) : Fault → Prop
  | nested : ¬ d.Throughout HasFlatKeys → IsObstructedBy d (.reading .unkeyable)
  | long : ¬ d.Throughout HasShortElements → IsObstructedBy d .longInteger

/-- A datum that something stands in the way of is not convertible. -/
theorem IsObstructedBy.not_isConvertible {fault : Fault} (h : d.IsObstructedBy fault) :
    ¬ d.IsConvertible := by
  intro hd
  cases h with
  | nested h => exact h hd.flat
  | long h => exact h hd.short

/-- What obstructs a part obstructs the whole. -/
theorem IsObstructedBy.of_converted {fault : Fault} (he : e ∈ d.converted)
    (h : e.IsObstructedBy fault) : d.IsObstructedBy fault := by
  cases h with
  | nested h => exact .nested fun hd => h ((throughout_iff.1 hd).2 e he)
  | long h => exact .long fun hd => h ((throughout_iff.1 hd).2 e he)

/-- A datum is convertible if its own keys and elements are fit and its parts are convertible. -/
theorem isConvertible_iff : d.IsConvertible ↔
    d.HasFlatKeys ∧ d.HasShortElements ∧ ∀ e ∈ d.converted, e.IsConvertible := by
  constructor
  · rintro ⟨hflat, hshort⟩
    obtain ⟨hflat, hflats⟩ := throughout_iff.1 hflat
    obtain ⟨hshort, hshorts⟩ := throughout_iff.1 hshort
    exact ⟨hflat, hshort, fun e he => ⟨hflats e he, hshorts e he⟩⟩
  · rintro ⟨hflat, hshort, hparts⟩
    exact ⟨throughout_iff.2 ⟨hflat, fun e he => (hparts e he).flat⟩,
      throughout_iff.2 ⟨hshort, fun e he => (hparts e he).short⟩⟩

/-- The conversion comes to a plain datum if nothing obstructs it, and else to what obstructs it. -/
abbrev Converts (d : Datum) : Prop :=
  Except.Ends d.IsObstructedBy (fun _ => d.IsConvertible) d.plain

/-- Items are converted if each is, and otherwise stop as one of them does. -/
theorem ends_plainAll {P : Fault → Prop} {R : Datum → Prop}
    (h : ∀ d ∈ ds, Except.Ends P (fun _ => R d) d.plain) :
    Except.Ends P (fun _ => ∀ d ∈ ds, R d) (plainAll ds) := by
  rw [plainAll_eq_mapM]
  refine (Except.Ends.mapM_forall₂ h).mono (fun _ => id) fun ps hall d hd => ?_
  obtain ⟨p, -, hR⟩ := exists_right_of_forall₂ hall hd
  exact hR

/-- The items of a datum convert, each by itself. -/
theorem ends_items (h : ∀ e ∈ ds, e.Converts) (hds : d.converted = ds) :
    Except.Ends d.IsObstructedBy (fun _ => ∀ e ∈ ds, e.IsConvertible) (plainAll ds) :=
  ends_plainAll fun e he => (h e he).mono (fun _ hfault => hfault.of_converted (hds ▸ he))
    fun _ => id

/-- Converted elements can be sorted just if none of the elements holds a long integer. -/
theorem ends_sortedByText (hkeys : ∀ e ∈ ds, e.keyable = true)
    (hholds : ∀ e ∈ ds, e.Throughout HoldsKeys) (hps : plainAll ds = .ok ps) :
    Except.Ends (Datum.set ds).IsObstructedBy (fun _ => (Datum.set ds).HasShortElements)
      (sortedByText ps) := by
  have hlong : anyHoldsLong ps = anyHoldsLong ds :=
    anyHoldsLong_plainAll hps fun e he _ => holdsLongInteger_plain e (hkeys e he) (hholds e he)
  rw [sortedByText, hlong]
  split_ifs with hany
  · refine .long fun hshort => Bool.eq_false_iff.1 ?_ hany
    exact anyHoldsLong_eq_false_iff.2 (throughout_iff.1 hshort).1
  · exact anyHoldsLong_eq_false_iff.1 (Bool.eq_false_iff.2 hany)

/-- An entry converts if its key and its value do, and the key stays one. -/
theorem ends_plainEntry {kv : Datum × Datum} (hmem : kv ∈ es) (hkey : kv.1.keyable = true)
    (hholds : kv.1.HoldsKeys) (hk : kv.1.Converts) (hv : kv.2.Converts) :
    Except.Ends (Datum.map es).IsObstructedBy
      (fun _ => kv.1.IsFlat ∧ kv.1.IsConvertible ∧ kv.2.IsConvertible) (plainEntry kv) := by
  have hparts : kv.1 ∈ entryParts es ∧ kv.2 ∈ entryParts es :=
    forall_entryParts.1 (fun _ => id) kv hmem
  rw [plainEntry]
  refine (hk.mono (fun _ h => h.of_converted hparts.1) fun _ => id).bind fun k hplain hk => ?_
  refine (hv.mono (fun _ h => h.of_converted hparts.2) fun _ => id).bind fun v _ hv => ?_
  have hflat := keyable_plainKey hkey hholds hplain
  rw [asPlainKey]
  split_ifs with hplainKey
  · exact ⟨hflat.1 hplainKey, hk, hv⟩
  · exact .nested fun hd => hplainKey (hflat.2 ((throughout_iff.1 hd).1 kv hmem))

/-- A datum whose maps and sets are made of keys converts just if no key of a map holds a collection
inside of another one and no set holds a long integer, at any depth. -/
theorem ends_plain (d : Datum) (hholds : d.Throughout HoldsKeys) : d.Converts := by
  induction d using conversion_induction with
  | h d ih =>
    obtain ⟨hd, hparts⟩ := throughout_iff.1 hholds
    have hparts' : ∀ e ∈ d.converted, e.Converts := fun e he => ih e he (hparts e he)
    rw [Converts, isConvertible_iff]
    cases d with
    | list ds | vector ds =>
      rw [plain]
      exact (ends_items hparts' rfl).bind fun _ _ hds => ⟨trivial, trivial, hds⟩
    | set ds =>
      rw [plain]
      refine (ends_items hparts' rfl).bind fun ps hps hds => ?_
      exact (ends_sortedByText hd hparts hps).bind fun _ _ hshort => ⟨trivial, hshort, hds⟩
    | map es =>
      rw [plain, plainEntries_eq_mapM]
      have hentry : ∀ kv ∈ es, Except.Ends (Datum.map es).IsObstructedBy
          (fun _ => kv.1.IsFlat ∧ kv.1.IsConvertible ∧ kv.2.IsConvertible) (plainEntry kv) := by
        intro kv hkv
        obtain ⟨hk, hv⟩ := forall_entryParts.1 hparts' kv hkv
        obtain ⟨hholdsKey, -⟩ := forall_entryParts.1 hparts kv hkv
        exact ends_plainEntry hkv (hd kv hkv) (throughout_iff.1 hholdsKey).1 hk hv
      refine (Except.Ends.mapM_forall₂ hentry).bind fun pairs _ hall => ?_
      have hes : ∀ kv ∈ es, kv.1.IsFlat ∧ kv.1.IsConvertible ∧ kv.2.IsConvertible := fun kv hkv =>
        (exists_right_of_forall₂ hall hkv).elim fun _ h => h.2
      exact ⟨fun kv hkv => (hes kv hkv).1, trivial,
        forall_entryParts.2 fun kv hkv => (hes kv hkv).2⟩
    | _ => exact ⟨trivial, trivial, nofun⟩

/-- So there is a result just for the data that are convertible. -/
theorem Converts.exists_plain_iff (h : d.Converts) : (∃ p, d.plain = .ok p) ↔ d.IsConvertible := by
  unfold Converts at h
  cases hplain : d.plain with
  | ok p =>
    rw [hplain] at h
    exact iff_of_true ⟨p, rfl⟩ h
  | error fault =>
    rw [hplain] at h
    exact iff_of_false nofun h.not_isConvertible

/-- A fault of a conversion stands in its way. -/
theorem Converts.isObstructedBy {fault : Fault} (h : d.Converts) (hplain : d.plain = .error fault) :
    d.IsObstructedBy fault := by
  unfold Converts at h
  rwa [hplain] at h

end Datum

namespace Reader

open Datum

variable {features : List String} {rest : List Char} {d e : Datum} {ds : List Datum}
  {es : Entries Datum Datum} {text : String}

/-! ## What is read -/

/-- A literal holds no key. -/
theorem holdsKeys_of_isLiteral (h : isLiteral d = true) : d.Throughout HoldsKeys := by
  unfold isLiteral at h
  split at h <;> first | exact throughout_of_converted_eq_nil trivial rfl | cases h

theorem holdsKeys_list (h : ∀ d ∈ ds, d.Throughout HoldsKeys) :
    (Datum.list ds).Throughout HoldsKeys :=
  throughout_iff.2 ⟨trivial, h⟩

/-- The datum can be a key, and so can the keys in it. -/
def IsSoundKey (d : Datum) : Prop := d.keyable = true ∧ d.Throughout HoldsKeys

/-- The keys of a map are sound, and what they lead to is as well. -/
theorem holdsKeys_map :
    (Datum.map es).Throughout HoldsKeys ↔
      ∀ e ∈ es, IsSoundKey e.1 ∧ e.2.Throughout HoldsKeys := by
  rw [throughout_iff]
  change (∀ e ∈ es, e.1.keyable = true) ∧ (∀ d ∈ entryParts es, d.Throughout HoldsKeys) ↔ _
  rw [forall_entryParts]
  exact ⟨fun ⟨hkeys, hes⟩ e he => ⟨⟨hkeys e he, (hes e he).1⟩, (hes e he).2⟩,
    fun h => ⟨fun e he => (h e he).1.1, fun e he => ⟨(h e he).1.2, (h e he).2⟩⟩⟩

/-- Freezing a collection touches no key. -/
theorem isKeptByFreezing_holdsKeys : IsKeptByFreezing (Throughout HoldsKeys) where
  list _ := holdsKeys_list
  vector _ h := (throughout_iff.1 h).2
  map _ h e he := ⟨(holdsKeys_map.1 h e he).1.2, (holdsKeys_map.1 h e he).2⟩

/-- What a set is made of is in it, as sound as it was. -/
theorem holdsKeys_of_setOf (hds : ∀ d ∈ ds, d.Throughout HoldsKeys) (h : setOf ds = .ok d) :
    d.Throughout HoldsKeys := by
  unfold setOf elementsOf? at h
  split at h
  · next elements helements =>
    cases h
    split_ifs at helements with hall
    cases helements
    refine throughout_iff.2 ⟨fun e he => ?_, fun e he => ?_⟩
    · exact List.all_eq_true.1 hall e (mem_of_mem_eraseDups he)
    · obtain ⟨d, hd, rfl⟩ := List.mem_map.1 (mem_of_mem_eraseDups he)
      exact holds_frozen isKeptByFreezing_holdsKeys d (hds d hd)
  · cases h

/-- The entries of a map are made of the forms, a key and a value in turn; a key that is not sound
has been refused. -/
theorem holdsKeys_of_mapOf (hds : ∀ d ∈ ds, d.Throughout HoldsKeys) (h : mapOf ds rest = .ok es) :
    (Datum.map es).Throughout HoldsKeys := by
  unfold mapOf entriesOf? at h
  split_ifs at h
  split at h
  · next es' hes =>
    cases h
    dsimp only at hes
    split_ifs at hes with hall
    cases hes
    refine holdsKeys_map.2 (Entries.forall_insertAll (List.forall_mem_nil _) fun e he => ?_)
    have hkey : e.1.keyable = true := List.all_eq_true.1 hall e he
    obtain ⟨⟨k, v⟩, hkv, rfl⟩ := List.mem_map.1 he
    obtain ⟨hk, hv⟩ := mem_of_mem_pairs hkv
    exact ⟨⟨hkey, holds_frozen isKeptByFreezing_holdsKeys k (hds k hk)⟩, hds v hv⟩
  · cases h

/-- A key stays sound when the map gives it a namespace. -/
theorem IsSoundKey.qualifiedKey (space : String) (h : IsSoundKey d) :
    IsSoundKey (qualifiedKey space d) := by
  unfold Reader.qualifiedKey
  split
  · split <;> exact ⟨rfl, holdsKeys_of_isLiteral rfl⟩
  · exact h

/-- Reading makes no maps and sets but of keys. -/
theorem isKept_holdsKeys : IsKept (Throughout HoldsKeys) where
  atom h := holdsKeys_of_isLiteral (scan_isFrom h)
  sym _ := holdsKeys_of_isLiteral rfl
  list := holdsKeys_list
  vector h := throughout_iff.2 ⟨trivial, h⟩
  items := by
    intro d ds hd h
    cases d <;> cases hd <;> exact (throughout_iff.1 h).2
  set := holdsKeys_of_setOf
  map := holdsKeys_of_mapOf
  qualified space h := by
    refine holdsKeys_map.2 (Entries.forall_insertAll (List.forall_mem_nil _) ?_)
    rw [List.forall_mem_map]
    intro e he
    obtain ⟨hk, hv⟩ := holdsKeys_map.1 h e he
    exact ⟨hk.qualifiedKey space, hv⟩
  attached _ _ _ := throughout_of_converted_eq_nil trivial rfl
  tagged _ _ := throughout_of_converted_eq_nil trivial rfl

/-- The maps and sets in whatever is read have only keys that can be keys, at any depth. -/
theorem holdsKeys_of_first (h : first text features = .ok d) : d.Throughout HoldsKeys := by
  unfold first at h
  split at h
  · next d' rest hadvance =>
    cases h
    have hloose : ∀ ds, (Datum.splice ds).Throughout HoldsKeys :=
      fun _ => throughout_of_converted_eq_nil trivial rfl
    exact isKept_holdsKeys.of_advance (fun _ => hloose) (List.forall_mem_nil _) hadvance
  · cases h
    exact throughout_of_converted_eq_nil trivial rfl
  · cases h

end Reader

/-! ## Manifests -/

open Datum

variable {d e key : Datum} {es : Entries Datum Datum}

/-- What a datum without long integers is converted from holds none. -/
theorem Datum.holdsLongInteger_of_mem_converted (h : d.holdsLongInteger = false)
    (he : e ∈ d.converted) : e.holdsLongInteger = false := by
  cases d with
  | list ds | vector ds | set ds => exact anyHoldsLong_eq_false_iff.1 h e he
  | map es =>
    have hes := anyEntryHoldsLong_eq_false_iff.1 h
    exact forall_entryParts (P := fun d => d.holdsLongInteger = false) |>.2 hes e he
  | _ => cases he

/-- Nothing that is met in a datum without long integers is one, or holds one. -/
theorem Datum.holdsLongInteger_of_isMetIn (h : d.holdsLongInteger = false) (he : IsMetIn e d) :
    e.holdsLongInteger = false := by
  induction he using Relation.ReflTransGen.head_induction_on with
  | refl => exact h
  | head he _ ih => exact holdsLongInteger_of_mem_converted ih he

/-- Where no integer is long, the elements of sets can all be written. -/
theorem Datum.hasShortElements_of_holdsLongInteger (h : d.holdsLongInteger = false) :
    d.Throughout HasShortElements := by
  intro e he
  have hshort := holdsLongInteger_of_isMetIn h he
  cases e with
  | set ds => exact anyHoldsLong_eq_false_iff.1 hshort
  | _ => trivial

/-- Only what does not convert obstructs a block, and it does if the block is a map. -/
theorem Overrides.obstructs_ofDatum_iff (h : d.Converts) :
    (∃ fault, Overrides.ofDatum d = .error fault ∧ d.IsObstructedBy fault) ↔
      d.entries?.isSome = true ∧ ¬ d.IsConvertible := by
  cases d with
  | map es =>
    rw [and_iff_right (show (Datum.map es).entries?.isSome = true from rfl)]
    refine ⟨fun ⟨fault, _, hfault⟩ => hfault.not_isConvertible, fun hnot => ?_⟩
    unfold Converts at h
    rw [ofDatum]
    cases hplain : (Datum.map es).plain with
    | ok p =>
      rw [hplain] at h
      exact (hnot h).elim
    | error fault =>
      rw [hplain] at h
      exact ⟨fault, rfl, h⟩
  | _ =>
    refine ⟨?_, fun ⟨hmap, _⟩ => nomatch hmap⟩
    rintro ⟨fault, hfault, hobstructs⟩
    cases hfault <;> cases hobstructs

/-- Only what does not convert obstructs a coordinate, and it does if it is a map. -/
theorem Manifest.obstructs_dependency_iff (hkey : key.isSymbol = true) (h : d.Converts) :
    (∃ fault, Manifest.dependency key d = .error fault ∧ d.IsObstructedBy fault) ↔
      d.entries?.isSome = true ∧ ¬ d.IsConvertible := by
  obtain ⟨n, hn⟩ := Option.isSome_iff_exists.1 (show key.symbolName?.isSome = true from hkey)
  rw [dependency, hn]
  cases d.entries? with
  | none =>
    refine ⟨?_, fun ⟨hmap, _⟩ => nomatch hmap⟩
    rintro ⟨fault, hfault, hobstructs⟩
    cases hfault
    cases hobstructs
  | some es =>
    refine ⟨fun ⟨fault, _, hfault⟩ => ⟨rfl, hfault.not_isConvertible⟩, fun ⟨_, hnot⟩ => ?_⟩
    unfold Converts at h
    cases hplain : d.plain with
    | ok p =>
      rw [hplain] at h
      exact (hnot h).elim
    | error fault =>
      rw [hplain] at h
      exact ⟨fault, rfl, h⟩

namespace Manifest

/-- Neither the conversion of the datum comes to the fault, nor the writing of it. -/
structure Spares (fault : Fault) (d : Datum) : Prop where
  plain : d.plain ≠ .error fault
  written : fault = .longInteger → d.holdsLongInteger = false

/-- Showing a datum does not bring about a fault that the datum spares. -/
theorem Spares.showing {fault other : Fault} (h : Spares fault d) (hother : other ≠ fault) :
    Fault.showing d other ≠ fault := by
  rw [Fault.showing]
  split_ifs with hlong
  · intro heq
    exact Bool.eq_false_iff.1 (h.written heq.symm) hlong
  · exact hother

theorem spares_nil {fault : Fault} : Spares fault .nil := ⟨nofun, fun _ => rfl⟩

section Sparing

-- the faults of a conversion are none of those that the settings have
variable {fault : Fault} (hfault : ∀ cause, Fault.settings cause ≠ fault)

/-- A result that the fault does not come up in. -/
abbrev EndsWithout {α : Type} (fault : Fault) : Except Fault α → Prop := Except.FailsBy (· ≠ fault)

/-- A map that spares a fault has keys and values that do. -/
theorem spares_value (h : (Datum.map es).Throughout (Spares fault)) :
    ∀ e ∈ es, e.1.Throughout (Spares fault) ∧ e.2.Throughout (Spares fault) :=
  forall_entryParts.1 (throughout_iff.1 h).2

/-- So what is found under a key spares it, and so does what stands for a key that is not there. -/
theorem spares_get? (h : (Datum.map es).Throughout (Spares fault)) (k : Datum) :
    ((es.get? k).getD .nil).Throughout (Spares fault) := by
  unfold Entries.get?
  cases hfind : es.find? fun e => e.1 == k with
  | none => exact throughout_of_converted_eq_nil spares_nil rfl
  | some e => exact (spares_value h e (List.mem_of_find?_eq_some hfind)).2

/-- Writing a datum that spares a fault does not end in it. -/
theorem endsWithout_written (h : Spares fault d) : EndsWithout fault d.written := by
  intro e he heq
  obtain rfl : e = .longInteger := failsBy_written d e he
  rw [Datum.written, h.written heq.symm] at he
  cases he

include hfault

theorem endsWithout_textsAt (es : Entries Datum Datum) (name : String) :
    EndsWithout fault (textsAt es name) := by
  unfold textsAt
  split
  · exact .ok _
  · split
    · split
      · exact .ok _
      · exact .error (hfault _)
    · exact .error (hfault _)

/-- A coordinate that spares a fault is read without it. -/
theorem endsWithout_dependency (hkey : Spares fault key) (h : Spares fault d) :
    EndsWithout fault (dependency key d) := by
  unfold dependency
  split
  · exact .error (hkey.showing (hfault _))
  · exact .error (hfault _)
  · refine Except.FailsBy.bind ?_ fun _ => .ok _
    intro e he heq
    exact h.plain (heq ▸ he)

/-- The coordinates of a map are read without a fault that all of it spares. -/
theorem endsWithout_dependencies (h : d.Throughout (Spares fault)) :
    EndsWithout fault (dependencies d) := by
  unfold dependencies
  split
  · exact .ok _
  · refine (Except.FailsBy.mapM ?_).bind fun _ => .ok _
    rintro ⟨k, v⟩ he
    obtain ⟨hk, hv⟩ := spares_value h _ he
    exact endsWithout_dependency hfault (hk k .refl) (hv v .refl)
  · exact .error (hfault _)

/-- An alias is read without it. -/
theorem endsWithout_aliasOf (hkey : Spares fault key) (h : d.Throughout (Spares fault)) :
    EndsWithout fault (aliasOf key d) := by
  unfold aliasOf
  split
  · next n es _ hes =>
    obtain rfl : d = .map es := by cases d <;> cases hes; rfl
    refine (endsWithout_textsAt hfault es _).bind fun _ => ?_
    exact (endsWithout_dependencies hfault (spares_get? h _)).bind fun _ => .ok _
  · exact .error (hkey.showing (hfault _))

/-- All the aliases are. -/
theorem endsWithout_aliasesOf (h : d.Throughout (Spares fault)) :
    EndsWithout fault (aliasesOf d) := by
  unfold aliasesOf
  split
  · exact .ok _
  · refine (Except.FailsBy.mapM ?_).bind fun _ => .ok _
    rintro ⟨k, v⟩ he
    obtain ⟨hk, hv⟩ := spares_value h _ he
    exact endsWithout_aliasOf hfault (hk k .refl) hv
  · exact .error (hfault _)

omit hfault in

/-- The repositories can be told without the fault if the datum is spared it. -/
theorem endsWithout_repositoriesOf (h : d.Throughout (Spares fault)) :
    EndsWithout fault (repositoriesOf d) := by
  unfold repositoriesOf
  refine (Except.FailsBy.mapM ?_).bind fun _ => .ok _
  rintro ⟨k, place⟩ hplaced
  obtain ⟨⟨name, info⟩, he, hinfo⟩ := List.mem_filterMap.1 hplaced
  obtain ⟨_, -, ⟨⟩⟩ := Option.map_eq_some_iff.1 hinfo
  cases d with
  | map es => exact (endsWithout_written ((spares_value h _ he).1 k .refl)).bind fun _ => .ok _
  | _ => cases he

/-- The block of overrides can be told without the fault if the datum is spared it. -/
theorem endsWithout_ofDatum (h : Spares fault d) : EndsWithout fault (Overrides.ofDatum d) := by
  unfold Overrides.ofDatum
  split
  · exact .ok _
  · refine Except.FailsBy.bind ?_ fun _ => ?_
    · intro e he heq
      exact h.plain (heq ▸ he)
    · dsimp only
      split
      · exact .ok _
      · exact .error (hfault _)
  · exact .error (hfault _)

/-- Put together, a manifest whose parts all spare a fault is read without it. -/
theorem endsWithout_ofEntries (path : Path) (h : (Datum.map es).Throughout (Spares fault)) :
    EndsWithout fault (ofEntries path es) := by
  unfold ofEntries
  refine (endsWithout_textsAt hfault es _).bind fun _ => ?_
  refine (endsWithout_dependencies hfault (spares_get? h _)).bind fun _ => ?_
  refine (endsWithout_aliasesOf hfault (spares_get? h _)).bind fun _ => ?_
  refine (endsWithout_repositoriesOf (spares_get? h _)).bind fun _ => ?_
  exact (endsWithout_ofDatum hfault (spares_get? h _ _ .refl)).bind fun _ => .ok _

/-- The manifest in a text that is read as a datum which is spared throughout. -/
theorem endsWithout_ofText {text : String} (path : Path)
    (h : Reader.first text Reader.defaultFeatures = .ok d) (hd : d.Throughout (Spares fault)) :
    EndsWithout fault (ofText path text) := by
  unfold ofText
  rw [h]
  cases d with
  | nil =>
    have hnone : (Datum.map []).Throughout (Spares fault) :=
      throughout_of_converted_eq_nil ⟨nofun, fun _ => rfl⟩ rfl
    exact endsWithout_ofEntries hfault path hnone
  | map es => exact endsWithout_ofEntries hfault path hd
  | _ => exact .error (hfault _)

end Sparing

end Manifest

namespace Reader

/-- Of what is read, all that the conversion comes to has a plain datum just if no collection stands
inside of another one in a key of its maps and no set in it holds an integer that is too long to be
written; what obstructs it tells the fault. A block or coordinate that is a map fails in the
conversion just if it does not have one. So a manifest does not fail for a key if the keys in it are
flat, nor for a long integer if there is none. -/
theorem plain_of_first {text : String} {features : List String} (h : first text features = .ok d) :
    (∀ e, IsMetIn e d →
      ((∃ p, e.plain = .ok p) ↔
        e.Throughout HasFlatKeys ∧ e.Throughout HasShortElements) ∧
      (∀ fault, e.plain = .error fault → e.IsObstructedBy fault) ∧
      ((∃ fault, Overrides.ofDatum e = .error fault ∧ e.IsObstructedBy fault) ↔
        e.entries?.isSome = true ∧ ¬ e.IsConvertible) ∧
      ∀ key, key.isSymbol = true →
        ((∃ fault, Manifest.dependency key e = .error fault ∧ e.IsObstructedBy fault) ↔
          e.entries?.isSome = true ∧ ¬ e.IsConvertible)) ∧
    (features = defaultFeatures → ∀ path,
      (d.Throughout HasFlatKeys → Manifest.ofText path text ≠ .error (.reading .unkeyable)) ∧
      (d.holdsLongInteger = false → Manifest.ofText path text ≠ .error .longInteger)) := by
  have hconverts : ∀ e, IsMetIn e d → e.Converts :=
    fun e he => ends_plain e ((holdsKeys_of_first h).of_isMetIn he)
  refine ⟨fun e he => ⟨?_, ?_, ?_, fun key hkey => ?_⟩, ?_⟩
  · rw [(hconverts e he).exists_plain_iff]
    exact ⟨fun hd => ⟨hd.flat, hd.short⟩, fun ⟨hflat, hshort⟩ => ⟨hflat, hshort⟩⟩
  · intro fault hfault
    exact (hconverts e he).isObstructedBy hfault
  · exact Overrides.obstructs_ofDatum_iff (hconverts e he)
  · exact Manifest.obstructs_dependency_iff hkey (hconverts e he)
  · rintro rfl path
    constructor
    · intro hflat hfault
      have hspared : d.Throughout (Manifest.Spares (.reading .unkeyable)) := by
        refine fun e he => ⟨fun hplain => ?_, nofun⟩
        cases (hconverts e he).isObstructedBy hplain with
        | nested hnested => exact hnested (hflat.of_isMetIn he)
      exact Manifest.endsWithout_ofText (fun _ h => by cases h) path h hspared _ hfault rfl
    · intro hlong hfault
      have hspared : d.Throughout (Manifest.Spares .longInteger) := by
        intro e he
        have hshort := holdsLongInteger_of_isMetIn hlong he
        refine ⟨fun hplain => ?_, fun _ => hshort⟩
        cases (hconverts e he).isObstructedBy hplain with
        | long hheld => exact hheld (hasShortElements_of_holdsLongInteger hshort)
      exact Manifest.endsWithout_ofText (fun _ h => by cases h) path h hspared _ hfault rfl

/-- A map with a vector in a vector for a key, and what its key is read as. -/
def nestedKey : Datum := .map [(.list [.list []], .nil)]

/-- The key is frozen when it is read. -/
theorem first_nestedKey : first "\x7b[[]] nil\x7d" ["clj"] = .ok nestedKey := by
  have htext : "\x7b[[]] nil\x7d".toList =
      ['{', '[', '[', ']', ']', ' ', 'n', 'i', 'l', '}'] := by decide
  have hkey : Spells (.form (.vector [.vector []])) ['[', '[', ']', ']', ' ', 'n', 'i', 'l', '}']
      [' ', 'n', 'i', 'l', '}'] :=
    .vector (.item (.nothing _) (.vector (.closing (.nothing _))) (.closing (.nothing _)))
  have hitems : Spells (.items [.vector [.vector []], .nil] '}')
      ['[', '[', ']', ']', ' ', 'n', 'i', 'l', '}'] [] :=
    .item (.nothing _) hkey (.item (.blank rfl (.nothing _))
      (.token .nil (endsToken_cons rfl _)) (.closing (.nothing _)))
  have hread : (Part.form nestedKey).IsRead ["clj"]
      ['{', '[', '[', ']', ']', ' ', 'n', 'i', 'l', '}'] [] :=
    isRead_bracket (b := .curly) rfl rfl (isRead_of_spells hitems) rfl
  rw [first, htext, hread]
  rfl

/-- A manifest with an empty block of overrides, which is spelled as it is. -/
theorem first_emptyBlock : first "\x7b:bazel \x7b\x7d\x7d" defaultFeatures =
    .ok (.map [(.key "bazel", .map [])]) := by
  have htext : "\x7b:bazel \x7b\x7d\x7d".toList =
      ['{', ':', 'b', 'a', 'z', 'e', 'l', ' ', '{', '}', '}'] := by decide
  have hkey : IsToken (.keyword (.plain "bazel")) [':', 'b', 'a', 'z', 'e', 'l'] :=
    .keyword (t := ['b', 'a', 'z', 'e', 'l']) (by decide) (List.all_eq_true.1 rfl) (by decide)
  have hkeys : (Entries.keys [(Name.plain "bazel", Datum.map [])]).Nodup := by decide
  have hnone : (Entries.keys ([] : Entries Name Datum)).Nodup := List.nodup_nil
  have hmap : Spells (.form (.map [])) ['{', '}', '}'] ['}'] :=
    .map hnone (.closing (.nothing _))
  have hspells : Spells (.form (.map [(.key "bazel", .map [])]))
      "\x7b:bazel \x7b\x7d\x7d".toList [] := by
    rw [htext]
    exact .map hkeys (.item (.nothing _) (.token hkey (endsToken_cons rfl _))
      (.item (.blank rfl (.nothing _)) hmap (.closing (.nothing _))))
  exact first_of_spells (.nothing _) hspells defaultFeatures

/-- A vector in a vector is read as a key that does not convert, while the key by itself does. -/
theorem plain_of_first_nested :
    (first "\x7b[[]] nil\x7d" ["clj"] = .ok nestedKey ∧ (¬ ∃ p, nestedKey.plain = .ok p) ∧
      Overrides.ofDatum nestedKey = .error (.reading .unkeyable) ∧
      ∃ p, (Datum.list [.list []]).plain = .ok p) ∧
    first "\x7b:bazel \x7b\x7d\x7d" defaultFeatures = .ok (.map [(.key "bazel", .map [])]) ∧
      Manifest.ofText (.ofNames []) "\x7b:bazel \x7b\x7d\x7d" ≠ .error (.reading .unkeyable) := by
  obtain ⟨hmet, -⟩ := plain_of_first first_nestedKey
  obtain ⟨hplain, -, hblock, -⟩ := hmet _ .refl
  obtain ⟨hkey, -⟩ := hmet (.list [.list []]) (.single List.mem_cons_self)
  have hdeep : ¬ nestedKey.Throughout HasFlatKeys :=
    fun h => Bool.noConfusion (h _ .refl _ List.mem_cons_self _ List.mem_cons_self)
  have hshort : nestedKey.Throughout HasShortElements := hasShortElements_of_holdsLongInteger rfl
  obtain ⟨fault, hfault, hobstructs⟩ := hblock.2 ⟨rfl, fun h => hdeep h.flat⟩
  have hfaultBlock : fault = .reading .unkeyable := by
    cases hobstructs with
    | nested => rfl
    | long h => exact (h hshort).elim
  have hflat : (Datum.map [(.key "bazel", .map [])]).Throughout HasFlatKeys :=
    ((ends_plain _ (holdsKeys_of_first first_emptyBlock)).exists_plain_iff.1 ⟨_, rfl⟩).flat
  refine ⟨⟨first_nestedKey, fun h => hdeep (hplain.1 h).1, hfaultBlock ▸ hfault,
    hkey.2 ⟨?_, hasShortElements_of_holdsLongInteger rfl⟩⟩, first_emptyBlock,
    ((plain_of_first first_emptyBlock).2 rfl _).1 hflat⟩
  exact throughout_iff.2 ⟨trivial,
    List.forall_mem_singleton.2 (throughout_iff.2 ⟨trivial, List.forall_mem_nil _⟩)⟩

end Reader

end BuildFiles
