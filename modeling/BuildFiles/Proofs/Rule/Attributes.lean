import BuildFiles.Rule.Target
import BuildFiles.Proofs.LongIntegers
import BuildFiles.Proofs.Text

/-!
# Which attributes layers and labels leave alone

Layers that do not write an attribute leave it as it is (`get?_merge_of_first`), and so does
bringing labels in order for all attributes that hold none (`get?_normalize`). Where all labels are
texts that start as labels do, they can be brought in order and stay such (`HoldsLabels`). A member
of an attribute in the end is one that some layer writes (`exists_layer_of_normalize`).
-/

namespace BuildFiles

namespace Attributes

variable {κ : Type} [BEq κ] [LawfulBEq κ] {k : κ}

/-! ## Layers -/

/-- Putting one attribute on changes no other one. -/
theorem get?_put_of_ne {below : Entries κ Datum} {key : κ} {value : Datum} (h : key ≠ k) :
    (put below key value).get? k = below.get? k := by
  rw [put, Entries.get?_insert, if_neg (by simpa using h)]

/-- A layer leaves alone what it does not write. -/
theorem get?_lay_of_not_mem {below layer : Entries κ Datum} (h : k ∉ layer.keys) :
    (lay below layer).get? k = below.get? k := by
  rw [lay]
  induction layer generalizing below with
  | nil => rfl
  | cons e layer ih =>
    have hne : k ≠ e.1 := List.ne_of_not_mem_cons h
    rw [List.foldl_cons, ih (List.not_mem_of_not_mem_cons h), get?_put_of_ne (Ne.symm hne)]

/-- Layers without an attribute leave it as it is. -/
theorem get?_foldl_lay_of_not_mem {below : Entries κ Datum} {layers : List (Entries κ Datum)}
    (h : ∀ layer ∈ layers, k ∉ layer.keys) : (layers.foldl lay below).get? k = below.get? k := by
  induction layers generalizing below with
  | nil => rfl
  | cons layer layers ih =>
    rw [List.foldl_cons, ih (fun l hl => h l (List.mem_cons_of_mem _ hl)),
      get?_lay_of_not_mem (h layer List.mem_cons_self)]

/-- A text that only the first layer writes, and at first, stays as it is. -/
theorem get?_merge_of_first {text : String} {layer : Entries κ Datum}
    {layers : List (Entries κ Datum)} (hlayer : k ∉ layer.keys)
    (hlayers : ∀ layer ∈ layers, k ∉ layer.keys) :
    (merge (((k, .str text) :: layer) :: layers)).get? k = some (.str text) := by
  rw [merge, List.foldl_cons, get?_foldl_lay_of_not_mem hlayers, lay, List.foldl_cons]
  have hrest : (layer.foldl (fun acc e => put acc e.1 e.2) (put [] k (.str text))).get? k =
      (put [] k (.str text)).get? k := get?_lay_of_not_mem hlayer
  rw [hrest, put, Entries.get?_insert, if_pos (by simp)]
  rfl

/-! ## Labels -/

/-- Putting one attribute in order changes no other one. -/
theorem get?_normalizeAt {sort : Bool} {key : κ} {before after : Entries κ Datum}
    (h : normalizeAt sort before key = .ok after) (hne : key ≠ k) :
    after.get? k = before.get? k := by
  rw [normalizeAt] at h
  split at h
  · cases h
    rfl
  · next value _ =>
    cases hlabels : normalizedLabels sort value with
    | error e =>
      rw [hlabels] at h
      cases h
    | ok labels =>
      rw [hlabels] at h
      cases h
      rw [Entries.get?_insert, if_neg (by simpa using hne)]

/-- Nor does putting several in order change any that is not among them. -/
theorem get?_normalizeAll {sort : Bool} {keys : List κ} {before after : Entries κ Datum}
    (h : normalizeAll keys before sort = .ok after) (hnot : k ∉ keys) :
    after.get? k = before.get? k := by
  rw [normalizeAll] at h
  induction keys generalizing before with
  | nil =>
    cases h
    rfl
  | cons key keys ih =>
    have hne : k ≠ key := List.ne_of_not_mem_cons hnot
    rw [List.foldlM_cons] at h
    obtain ⟨mid, hmid, h⟩ := Except.bind_eq_ok h
    rw [ih h (List.not_mem_of_not_mem_cons hnot), get?_normalizeAt hmid (Ne.symm hne)]

/-- The value of an attribute that holds labels is brought in order, and nothing else is done to
it. -/
theorem get?_normalizeAll_of_mem {sort : Bool} {keys : List κ} (hkeys : keys.Nodup)
    {before after : Entries κ Datum} {value : Datum}
    (h : normalizeAll keys before sort = .ok after) (hk : k ∈ keys)
    (hvalue : before.get? k = some value) :
    ∃ value', normalizedLabels sort value = .ok value' ∧ after.get? k = some value' := by
  rw [normalizeAll] at h
  induction keys generalizing before with
  | nil => cases hk
  | cons key keys ih =>
    obtain ⟨hnot, hkeys⟩ := List.nodup_cons.1 hkeys
    rw [List.foldlM_cons] at h
    obtain ⟨mid, hmid, h⟩ := Except.bind_eq_ok h
    rcases List.mem_cons.1 hk with rfl | hk
    · rw [normalizeAt, hvalue] at hmid
      obtain ⟨value', hvalue', rfl⟩ := Except.map_eq_ok hmid
      refine ⟨value', hvalue', ?_⟩
      rw [get?_normalizeAll h hnot, Entries.get?_insert, if_pos (by simp)]
    · have hne : key ≠ k := fun hsame => hnot (hsame ▸ hk)
      exact ih hkeys h hk ((get?_normalizeAt hmid hne).trans hvalue)

/-- Labels in order are the members of the value without repetitions, in some order. -/
theorem exists_perm_of_normalizedLabels {sort : Bool} {value value' : Datum}
    (h : normalizedLabels sort value = .ok value') :
    ∃ xs ys zs, value.members? = some xs ∧ Datum.elementsOf? xs = some ys ∧ zs.Perm ys ∧
      value' = .vector zs := by
  rw [normalizedLabels] at h
  split at h
  · cases h
  · next xs hxs =>
    split at h
    · cases h
    · next ys hys =>
      obtain ⟨zs, hzs, rfl⟩ := Except.map_eq_ok h
      refine ⟨xs, ys, zs, hxs, hys, ?_, rfl⟩
      split at hzs
      · rw [← (Datum.sortedByText_eq_ok_iff.1 hzs).2]
        exact List.mergeSort_perm _ _
      · rw [← Except.ok.inj hzs]

/-- Labels that are in order are a vector. -/
theorem exists_vector_of_normalizedLabels {sort : Bool} {value value' : Datum}
    (h : normalizedLabels sort value = .ok value') : ∃ xs, value' = .vector xs := by
  obtain ⟨-, -, zs, -, -, -, rfl⟩ := exists_perm_of_normalizedLabels h
  exact ⟨zs, rfl⟩

/-- Labels that were brought in order are a vector, also after the labels of other attributes have
been. -/
theorem exists_vector_of_normalizeAll {sort : Bool} {keys : List κ} {before after : Entries κ Datum}
    {value : Datum} (h : normalizeAll keys before sort = .ok after) (hk : k ∈ keys)
    (hvalue : after.get? k = some value) : ∃ xs, value = .vector xs := by
  rw [normalizeAll] at h
  induction keys generalizing before with
  | nil => cases hk
  | cons key keys ih =>
    rw [List.foldlM_cons] at h
    obtain ⟨mid, hmid, hrest⟩ := Except.bind_eq_ok h
    by_cases hmem : k ∈ keys
    · exact ih hrest hmem
    · obtain rfl := (List.mem_cons.1 hk).resolve_right hmem
      rw [get?_normalizeAll hrest hmem] at hvalue
      rw [normalizeAt] at hmid
      split at hmid
      · next hnone =>
        obtain rfl := Except.ok.inj hmid
        rw [hnone] at hvalue
        cases hvalue
      · obtain ⟨labels, hlabels, rfl⟩ := Except.map_eq_ok hmid
        rw [Entries.get?_insert, if_pos (beq_self_eq_true k)] at hvalue
        obtain rfl := Option.some.inj hvalue
        exact exists_vector_of_normalizedLabels hlabels

/-- Only attributes that hold labels are brought in order. -/
theorem get?_normalize {sort : Bool} {before after : Attributes} {key : String}
    (h : before.normalize sort = .ok after) (hnot : key ∉ labelAttributes) :
    after.get? key = before.get? key :=
  get?_normalizeAll h hnot

/-! ## Where members come from -/

/-- The datum is a member of the value. -/
def IsMember (d value : Datum) : Prop := ∃ xs, value.members? = some xs ∧ d ∈ xs

theorem isMember_texts {d : Datum} {ss : List String} :
    IsMember d (.texts ss) ↔ ∃ s ∈ ss, d = .str s := by
  simp only [IsMember, Datum.texts, Datum.members?, Option.some.injEq, exists_eq_left',
    List.mem_map, eq_comm (a := d)]

/-- A layer has the members of its value. -/
theorem isMember_layerValue {d value : Datum} :
    IsMember d (layerValue value) ↔ IsMember d value := by
  cases value <;> rfl

/-- A member of values on each other is a member of one of them. -/
theorem isMember_stacked {d value : Datum} {below : Option Datum}
    (h : IsMember d (stacked below value)) :
    (∃ v, below = some v ∧ IsMember d v) ∨ IsMember d value := by
  unfold stacked at h
  split at h
  · next xs ys hys =>
    obtain ⟨zs, hzs, hd⟩ := h
    obtain rfl := Option.some.inj hzs
    rcases List.mem_append.1 hd with hd | hd
    · exact .inl ⟨_, rfl, xs, rfl, hd⟩
    · refine .inr (isMember_layerValue.1 ⟨ys, ?_, hd⟩)
      rw [layerValue, hys]
      rfl
  · exact .inr (isMember_layerValue.1 h)

/-- A member of what layers come to is one of what lies below, or one that a layer writes. -/
theorem exists_of_lay {below layer : Entries κ Datum} {value d : Datum}
    (h : (lay below layer).get? k = some value) (hd : IsMember d value) :
    (∃ v, below.get? k = some v ∧ IsMember d v) ∨ ∃ v, (k, v) ∈ layer ∧ IsMember d v := by
  rw [lay] at h
  induction layer generalizing below with
  | nil => exact .inl ⟨value, h, hd⟩
  | cons e layer ih =>
    rw [List.foldl_cons] at h
    rcases ih h with ⟨v, hv, hmember⟩ | ⟨v, hv, hmember⟩
    · rw [put, Entries.get?_insert] at hv
      split at hv
      · next hsame =>
        obtain rfl := eq_of_beq hsame
        obtain rfl := Option.some.inj hv
        rcases isMember_stacked hmember with ⟨v, hv, hmember⟩ | hmember
        · exact .inl ⟨v, hv, hmember⟩
        · exact .inr ⟨e.2, List.mem_cons_self, hmember⟩
      · exact .inl ⟨v, hv, hmember⟩
    · exact .inr ⟨v, List.mem_cons_of_mem e hv, hmember⟩

/-- So a member of a merged attribute comes from some layer. -/
theorem exists_layer_of_merge {layers : List (Entries κ Datum)} {value d : Datum}
    (h : (merge layers).get? k = some value) (hd : IsMember d value) :
    ∃ layer ∈ layers, ∃ v, (k, v) ∈ layer ∧ IsMember d v := by
  have hfold : ∀ below : Entries κ Datum, (layers.foldl lay below).get? k = some value →
      (∃ v, below.get? k = some v ∧ IsMember d v) ∨
        ∃ layer ∈ layers, ∃ v, (k, v) ∈ layer ∧ IsMember d v := by
    clear h
    induction layers with
    | nil => exact fun below h => .inl ⟨value, h, hd⟩
    | cons layer layers ih =>
      intro below h
      rcases ih _ h with ⟨v, hv, hmember⟩ | ⟨l, hl, hwritten⟩
      · exact (exists_of_lay hv hmember).imp_right fun hwritten =>
          ⟨layer, List.mem_cons_self, hwritten⟩
      · exact .inr ⟨l, List.mem_cons_of_mem layer hl, hwritten⟩
  rcases hfold [] h with ⟨v, hv, -⟩ | hwritten
  · cases hv
  · exact hwritten

/-- What is left of a list without repetitions is of the list, whatever counts as a repetition. -/
theorem mem_of_mem_eraseDups {α : Type} [BEq α] {a : α} : ∀ {l : List α}, a ∈ l.eraseDups → a ∈ l
  | [] => nofun
  | b :: l => by
    have hlength : (l.filter fun c => !c == b).length ≤ l.length := List.length_filter_le _ _
    rw [List.eraseDups_cons, List.mem_cons, List.mem_cons]
    exact Or.imp_right fun h => List.mem_of_mem_filter (mem_of_mem_eraseDups h)
termination_by l => l.length

/-- Putting labels in order brings no member about. -/
theorem isMember_of_normalizedLabels {sort : Bool} {value value' d : Datum}
    (h : normalizedLabels sort value = .ok value') (hd : IsMember d value') : IsMember d value := by
  obtain ⟨xs, ys, zs, hxs, hys, hperm, rfl⟩ := exists_perm_of_normalizedLabels h
  obtain ⟨zs', hzs, hd⟩ := hd
  obtain rfl := Option.some.inj hzs
  rw [Datum.elementsOf?] at hys
  split at hys
  · obtain rfl := Option.some.inj hys
    exact ⟨xs, hxs, mem_of_mem_eraseDups (hperm.mem_iff.1 hd)⟩
  · cases hys

/-- Each member of an attribute that was brought in order was a member of one before. -/
theorem exists_of_normalizeAt {sort : Bool} {key : κ} {before after : Entries κ Datum}
    {value d : Datum} (h : normalizeAt sort before key = .ok after)
    (hvalue : after.get? k = some value) (hd : IsMember d value) :
    ∃ v, before.get? k = some v ∧ IsMember d v := by
  by_cases hne : key = k
  · subst hne
    rw [normalizeAt] at h
    split at h
    · obtain rfl := Except.ok.inj h
      exact ⟨value, hvalue, hd⟩
    · next v hv =>
      cases hlabels : normalizedLabels sort v with
      | error e =>
        rw [hlabels] at h
        cases h
      | ok labels =>
        rw [hlabels] at h
        cases h
        rw [Entries.get?_insert, if_pos (by simp)] at hvalue
        obtain rfl := Option.some.inj hvalue
        exact ⟨v, hv, isMember_of_normalizedLabels hlabels hd⟩
  · rw [get?_normalizeAt h hne] at hvalue
    exact ⟨value, hvalue, hd⟩

/-- Bringing labels in order brings no new ones. -/
theorem exists_of_normalizeAll {sort : Bool} {keys : List κ} {before after : Entries κ Datum}
    {value d : Datum} (h : normalizeAll keys before sort = .ok after)
    (hvalue : after.get? k = some value) (hd : IsMember d value) :
    ∃ v, before.get? k = some v ∧ IsMember d v := by
  rw [normalizeAll] at h
  induction keys generalizing before with
  | nil =>
    cases h
    exact ⟨value, hvalue, hd⟩
  | cons key keys ih =>
    rw [List.foldlM_cons] at h
    obtain ⟨mid, hmid, h⟩ := Except.bind_eq_ok h
    obtain ⟨v, hv, hmember⟩ := ih h
    exact exists_of_normalizeAt hmid hv hmember

/-- A member of an attribute whose labels are in order is one that a layer writes. -/
theorem exists_layer_of_normalize {sort : Bool} {layers : List Attributes} {after : Attributes}
    {key : String} {value d : Datum} (h : normalize (merge layers) sort = .ok after)
    (hvalue : after.get? key = some value) (hd : IsMember d value) :
    ∃ layer ∈ layers, ∃ v, (key, v) ∈ layer ∧ IsMember d v := by
  obtain ⟨v, hv, hmember⟩ := exists_of_normalizeAll h hvalue hd
  exact exists_layer_of_merge hv hmember

/-! ## Texts that are labels -/

/-- Texts are put in order, each once. -/
theorem normalizedLabels_texts (ss : List String) :
    normalizedLabels true (.texts ss) = .ok (.texts (Text.sortedOnce ss)) := by
  have hkeyable : (ss.map Datum.str).all Datum.keyable = true := by
    simp [Datum.keyable]
  have hdups : (ss.map Datum.str).eraseDups = ss.eraseDups.map .str :=
    eraseDups_map (fun a b => by rw [Bool.eq_iff_iff, Datum.str_beq, beq_iff_eq]) ss
  have hsort : (ss.eraseDups.map Datum.str).mergeSort (fun a b => decide (a.text ≤ b.text)) =
      (Text.sorted ss.eraseDups).map .str := by
    rw [Text.sorted, List.map_mergeSort]
    exact fun _ _ _ _ => rfl
  have hwritten : ∀ d ∈ ss.eraseDups.map Datum.str, d.holdsLongInteger = false := by
    simp [Datum.holdsLongInteger]
  have hsorted : Datum.sortedByText (ss.eraseDups.map Datum.str) =
      .ok ((Text.sorted ss.eraseDups).map .str) :=
    Datum.sortedByText_eq_ok_iff.2 ⟨hwritten, hsort⟩
  rw [normalizedLabels, Datum.texts, Datum.members?]
  simp only [Datum.elementsOf?, hkeyable, if_true, hdups, hsorted]
  rfl

/-- All labels of the attributes are texts that start as labels do. -/
def HoldsLabels (a : Attributes) : Prop :=
  ∀ key ∈ labelAttributes, ∀ value, a.get? key = some value →
    ∃ ss, value = .texts ss ∧ ∀ s ∈ ss, isLabel (.str s) = true

namespace HoldsLabels

variable {a : Attributes} {key : String}

/-- Attributes that hold labels only can be put in order, and still do. -/
theorem exists_normalizeAt (h : a.HoldsLabels) (hkey : key ∈ labelAttributes) :
    ∃ a' : Attributes, normalizeAt true a key = .ok a' ∧ a'.HoldsLabels := by
  rw [normalizeAt]
  rcases hget : a.get? key with _ | value
  · exact ⟨a, rfl, h⟩
  · obtain ⟨ss, rfl, hss⟩ := h key hkey value hget
    refine ⟨a.insert key (.texts (Text.sortedOnce ss)), ?_, ?_⟩
    · simp only [normalizedLabels_texts]
      rfl
    · intro key' hkey' value' hvalue'
      rw [Entries.get?_insert] at hvalue'
      split at hvalue'
      · exact ⟨_, (Option.some.inj hvalue').symm, fun s hs => hss s (Text.mem_sortedOnce.1 hs)⟩
      · exact h key' hkey' value' hvalue'

/-- Attributes that hold labels only can be put in order all together, one key after the other. -/
theorem exists_normalize (h : a.HoldsLabels) :
    ∃ a' : Attributes, a.normalize true = .ok a' ∧ a'.HoldsLabels := by
  have hall : ∀ keys : List String, keys ⊆ labelAttributes → ∀ a : Attributes, a.HoldsLabels →
      ∃ a' : Attributes, normalizeAll keys a true = .ok a' ∧ a'.HoldsLabels := by
    intro keys
    induction keys with
    | nil => exact fun _ a ha => ⟨a, rfl, ha⟩
    | cons key keys ih =>
      intro hkeys a ha
      obtain ⟨hkey, hkeys⟩ := List.cons_subset.1 hkeys
      obtain ⟨mid, hmid, hholds⟩ := ha.exists_normalizeAt hkey
      obtain ⟨a', ha', hholds'⟩ := ih hkeys mid hholds
      refine ⟨a', ?_, hholds'⟩
      rw [normalizeAll, List.foldlM_cons, hmid]
      exact ha'
  exact hall labelAttributes (List.Subset.refl _) a h

/-- No bad label is found in them. -/
theorem badLabelAt?_eq (h : a.HoldsLabels) (hkey : key ∈ labelAttributes) :
    badLabelAt? a key = .ok none := by
  rw [badLabelAt?]
  rcases hget : a.get? key with _ | value
  · rfl
  · obtain ⟨ss, rfl, hss⟩ := h key hkey value hget
    refine congrArg Except.ok (List.find?_eq_none.2 fun d hd => ?_)
    obtain ⟨s, hs, rfl⟩ := List.mem_map.1 hd
    simp [hss s hs]

/-- A target whose attributes hold labels only passes the validation. -/
theorem validate {t : Target} (h : t.attributes.HoldsLabels) :
    t.validate = .ok () := by
  have hat : ∀ key ∈ labelAttributes, t.validateAt key = .ok () := by
    intro key hkey
    rw [Target.validateAt, h.badLabelAt?_eq hkey]
    rfl
  simp only [Attributes.labelAttributes, List.forall_mem_cons] at hat
  rw [Target.validate, Attributes.labelAttributes, List.forM_eq_forM, List.forM_cons,
    List.forM_cons, hat.1, hat.2.1]
  rfl

end HoldsLabels

end Attributes

end BuildFiles
