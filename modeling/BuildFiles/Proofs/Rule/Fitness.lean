import BuildFiles.Proofs.Entries
import BuildFiles.Proofs.Rule.Attributes
import BuildFiles.Proofs.Rule.Rendering

/-!
# Values that attributes can have

An attribute can have a value if the value can be written, or, where the attribute holds labels, if
its members can be told apart (`Attributes.IsFit`). Layers of such values come to such values
(`Attributes.holds_merge`), whose labels can be brought in order (`Attributes.ends_normalize`) and
which can then be written (`Target.ends_render`), unless an integer in them is too long. With other
values, bringing labels in order and writing only come to the faults that `Fault.IsOfValue` lists.
Every lemma on how one of these steps ends is stated with one kind of fault, `Fault.IsOfSettings`,
which names for each fault what must have been set for it to come up.
-/

namespace BuildFiles

/-! ## Faults -/

/-- A fault that tells of a member of an attribute that holds labels, which is no label. -/
def Fault.IsOfLabel (e : Fault) : Prop :=
  ∃ name, ∃ key ∈ Attributes.labelAttributes, ∃ d, Attributes.isLabel d = false ∧
    e = .settings (.badLabel name key d)

/-- A fault of a value that a rule cannot be written with: it has no expression, it holds no labels
where labels are needed, or one of them cannot be told apart from others. -/
inductive Fault.IsOfValue : Fault → Prop
  | unwritable (d : Datum) : IsOfValue (.unwritable d)
  | shapeless : IsOfValue .shapeless
  | unkeyable : IsOfValue (.reading .unkeyable)

/-- A fault of what was set: of a label if labels are checked, of a value if not all are fit, and of
an integer that is too long if not all are short. -/
inductive Fault.IsOfSettings (validated : Bool) (fit short : Prop) : Fault → Prop
  | label {e : Fault} : validated = true → e.IsOfLabel → IsOfSettings validated fit short e
  | value {e : Fault} : e.IsOfValue → ¬ fit → IsOfSettings validated fit short e
  | long : ¬ short → IsOfSettings validated fit short .longInteger

/-- Of what is all fit and short, only a label can be at fault. -/
theorem Fault.IsOfSettings.isOfLabel {validated : Bool} {fit short : Prop} {e : Fault}
    (h : e.IsOfSettings validated fit short) (hfit : fit) (hshort : short) :
    validated = true ∧ e.IsOfLabel := by
  cases h with
  | label hvalidated h => exact ⟨hvalidated, h⟩
  | value _ hnot => exact absurd hfit hnot
  | long hnot => exact absurd hshort hnot

/-- A fault of what came of settings is one of the settings, if what is fit and short comes to what
is so. -/
theorem Fault.IsOfSettings.mono {validated : Bool} {fit fit' short short' : Prop} {e : Fault}
    (h : e.IsOfSettings validated fit short) (hfit : fit' → fit) (hshort : short' → short) :
    e.IsOfSettings validated fit' short' := by
  cases h with
  | label hvalidated h => exact .label hvalidated h
  | value h hnot => exact .value h (mt hfit hnot)
  | long hnot => exact .long (mt hshort hnot)

namespace Attributes

variable {validated : Bool} {a : Attributes} {key : String} {value : Datum}

/-- The attribute can have the value: it can be written; or if the attribute holds labels, its
members can be told apart, and they can be written if it is not checked that they are labels. -/
def IsFitAt (validated : Bool) (key : String) (value : Datum) : Prop :=
  if key ∈ labelAttributes then
    ∃ xs, value.members? = some xs ∧
      ∀ x ∈ xs, x.keyable = true ∧ (validated = false → x.IsWritable)
  else value.IsWritable

/-- The attributes can all have their values. -/
def IsFit (validated : Bool) (a : Attributes) : Prop := ∀ e ∈ a, IsFitAt validated e.1 e.2

/-- No integer in the values of the attributes is too long to be written. -/
def IsShort (a : Attributes) : Prop := ∀ e ∈ a, e.2.holdsLongInteger = false

/-- A value is fit for a label attribute if it has members that can be keys, and if these are
writable or will be validated. -/
theorem isFitAt_of_mem (h : key ∈ labelAttributes) : IsFitAt validated key value ↔
    ∃ xs, value.members? = some xs ∧
      ∀ x ∈ xs, x.keyable = true ∧ (validated = false → x.IsWritable) := by
  rw [IsFitAt, if_pos h]

/-- For any other attribute a value is fit if it is writable. -/
theorem isFitAt_of_not_mem (h : key ∉ labelAttributes) :
    IsFitAt validated key value ↔ value.IsWritable := by
  rw [IsFitAt, if_neg h]

/-- A text is fit for every attribute: for label attributes it is a single label. -/
theorem isFitAt_str (s : String) : IsFitAt validated key (.str s) := by
  by_cases h : key ∈ labelAttributes
  · refine (isFitAt_of_mem h).2 ⟨_, rfl, fun x hx => ?_⟩
    obtain ⟨letter, -, rfl⟩ := List.mem_map.1 hx
    exact ⟨rfl, fun _ => .text letter⟩
  · exact (isFitAt_of_not_mem h).2 (.text s)

/-- Several texts are fit for every attribute: for label attributes they are several labels. -/
theorem isFitAt_texts (ss : List String) : IsFitAt validated key (.texts ss) := by
  by_cases h : key ∈ labelAttributes
  · refine (isFitAt_of_mem h).2 ⟨_, rfl, fun x hx => ?_⟩
    obtain ⟨s, -, rfl⟩ := List.mem_map.1 hx
    exact ⟨rfl, fun _ => .text s⟩
  · refine (isFitAt_of_not_mem h).2 (.vector fun x hx => ?_)
    obtain ⟨s, -, rfl⟩ := List.mem_map.1 hx
    exact .text s

/-! ## Layers -/

/-- A value is put into a layer in a form that is as writable. -/
theorem isWritable_layerValue (h : value.IsWritable) : (layerValue value).IsWritable := by
  cases h with
  | list hxs => exact .vector hxs
  | vector hxs => exact .vector hxs
  | bool b => exact .bool b
  | int n => exact .int n
  | text s => exact .text s
  | path p => exact .path p
  | map hkeys hes => exact .map hkeys hes

/-- A value has the same members in its layer. -/
theorem members?_layerValue (value : Datum) : (layerValue value).members? = value.members? := by
  cases value <;> rfl

/-- The members of a sequence are its items. -/
theorem members?_of_sequence? {xs : List Datum} (h : value.sequence? = some xs) :
    value.members? = some xs := by
  cases value <;> first | exact h | cases h

/-- Items of a sequence that is writable are writable. -/
theorem isWritable_of_sequence? {xs : List Datum} (h : value.sequence? = some xs)
    (hvalue : value.IsWritable) : ∀ x ∈ xs, x.IsWritable := by
  cases hvalue with
  | list hxs =>
    obtain rfl := Option.some.inj h
    exact hxs
  | vector hxs =>
    obtain rfl := Option.some.inj h
    exact hxs
  | _ => cases h

/-- A value is as fit in its layer as it is alone: putting it in only makes a vector of a sequence
of another kind. -/
theorem isFitAt_layerValue (h : IsFitAt validated key value) :
    IsFitAt validated key (layerValue value) := by
  by_cases hkey : key ∈ labelAttributes
  · rw [isFitAt_of_mem hkey] at h ⊢
    rwa [members?_layerValue]
  · rw [isFitAt_of_not_mem hkey] at h ⊢
    exact isWritable_layerValue h

/-- A value that is put on another one is fit if both are, whether it takes its place or is joined
to it. -/
theorem isFitAt_stacked {below : Option Datum}
    (hbelow : ∀ v, below = some v → IsFitAt validated key v) (h : IsFitAt validated key value) :
    IsFitAt validated key (stacked below value) := by
  unfold stacked
  split
  · next xs ys hys =>
    have hxs := hbelow (.vector xs) rfl
    by_cases hkey : key ∈ labelAttributes
    · rw [isFitAt_of_mem hkey] at h hxs ⊢
      obtain ⟨_, hmembers, hxs⟩ := hxs
      obtain rfl := Option.some.inj hmembers
      obtain ⟨_, hmembers, hvalue⟩ := h
      obtain rfl := Option.some.inj ((members?_of_sequence? hys).symm.trans hmembers)
      exact ⟨_, rfl, List.forall_mem_append.2 ⟨hxs, hvalue⟩⟩
    · rw [isFitAt_of_not_mem hkey] at h hxs ⊢
      exact .vector (List.forall_mem_append.2
        ⟨isWritable_of_sequence? rfl hxs, isWritable_of_sequence? hys h⟩)
  · exact isFitAt_layerValue h

/-- A layer adds no long integer to a value, and drops none. -/
theorem holdsLongInteger_layerValue (value : Datum) :
    (layerValue value).holdsLongInteger = value.holdsLongInteger := by
  cases value <;> rfl

/-- The members of a value without long integers hold none. -/
theorem holdsLongInteger_of_members? {xs : List Datum} (hmembers : value.members? = some xs)
    (h : value.holdsLongInteger = false) : ∀ x ∈ xs, x.holdsLongInteger = false := by
  cases value with
  | list ys | vector ys | set ys =>
    obtain rfl := Option.some.inj hmembers
    exact Datum.anyHoldsLong_eq_false_iff.1 h
  | map es =>
    obtain rfl := Option.some.inj hmembers
    exact List.forall_mem_map.2 fun e he => (Datum.anyEntryHoldsLong_eq_false_iff.1 h e he).1
  | str s =>
    obtain rfl := Option.some.inj hmembers
    exact List.forall_mem_map.2 fun _ _ => rfl
  | _ => cases hmembers

/-- Putting values on each other brings no long integer about. -/
theorem holdsLongInteger_stacked {below : Option Datum}
    (hbelow : ∀ v, below = some v → v.holdsLongInteger = false)
    (h : value.holdsLongInteger = false) : (stacked below value).holdsLongInteger = false := by
  unfold stacked
  split
  · next xs ys hys =>
    have hxs := Datum.anyHoldsLong_eq_false_iff.1 (hbelow (.vector xs) rfl)
    have hvalue := holdsLongInteger_of_members? (members?_of_sequence? hys) h
    exact Datum.anyHoldsLong_eq_false_iff.2 (List.forall_mem_append.2 ⟨hxs, hvalue⟩)
  · rwa [holdsLongInteger_layerValue]

/-- What is found under an attribute is as asked for it. -/
def Holds (asked : String → Datum → Prop) (a : Attributes) : Prop :=
  ∀ key value, a.get? key = some value → asked key value

/-- What is found under the attributes can be their value. -/
abbrev HoldsFit (validated : Bool) : Attributes → Prop := Holds (IsFitAt validated)

/-- What is found under the attributes has no integers that are too long. -/
abbrev HoldsShort : Attributes → Prop := Holds fun _ value => value.holdsLongInteger = false

/-- What all values have to satisfy they still do when one that does is put in. -/
theorem Holds.insert {asked : String → Datum → Prop} (h : a.Holds asked)
    (hvalue : asked key value) : Holds asked (a.insert key value) := by
  intro key' value' hget
  rw [Entries.get?_insert] at hget
  split at hget
  · next hsame =>
    obtain rfl := eq_of_beq hsame
    obtain rfl := Option.some.inj hget
    exact hvalue
  · exact h key' value' hget

/-- Layers come to what is asked of them, if stacking a value over another one keeps that. -/
theorem holds_merge {asked : String → Datum → Prop} {layers : List Attributes}
    (hstacked : ∀ key below value, (∀ v, below = some v → asked key v) → asked key value →
      asked key (stacked below value))
    (h : ∀ layer ∈ layers, ∀ e ∈ layer, asked e.1 e.2) : Holds asked (merge layers) := by
  have hnone : Holds asked [] := fun key value hget => nomatch hget
  exact List.foldlRecOn layers _ hnone fun _ hbelow layer hlayer =>
    List.foldlRecOn layer _ hbelow fun _ hbelow e he =>
      hbelow.insert (hstacked _ _ _ (fun v hv => hbelow e.1 v hv) (h layer hlayer e he))

/-- Layers that are fit are merged to attributes that are. -/
theorem holdsFit_merge {layers : List Attributes} (h : ∀ layer ∈ layers, layer.IsFit validated) :
    HoldsFit validated (merge layers) :=
  holds_merge (fun _ _ _ => isFitAt_stacked) h

/-- Layers without long integers are merged to attributes without them. -/
theorem holdsShort_merge {layers : List Attributes} (h : ∀ layer ∈ layers, layer.IsShort) :
    HoldsShort (merge layers) :=
  holds_merge (fun _ _ _ => holdsLongInteger_stacked) h

/-! ## Labels in order -/

/-- Labels that are in order: a vector of what can be told apart. -/
def IsOrdered (validated : Bool) (value : Datum) : Prop :=
  ∃ xs, value = .vector xs ∧ ∀ x ∈ xs, x.keyable = true ∧ (validated = false → x.IsWritable)

/-- All labels are in order. -/
def IsNormal (validated : Bool) (a : Attributes) : Prop :=
  ∀ key ∈ labelAttributes, ∀ value, a.get? key = some value → IsOrdered validated value

/-- What stands where labels are needed has members. -/
def HasMembers (a : Attributes) : Prop :=
  ∀ key ∈ labelAttributes, ∀ value, a.get? key = some value → value.members? ≠ none

/-- Attributes in normal form have members wherever labels belong. -/
theorem IsNormal.hasMembers (h : a.IsNormal validated) : a.HasMembers := by
  intro key hkey value hvalue
  obtain ⟨xs, rfl, -⟩ := h key hkey value hvalue
  exact nofun

/-- The members of the value of an attribute are all labels. -/
def OnlyLabelsAt (a : Attributes) (key : String) : Prop :=
  ∀ value xs, a.get? key = some value → value.members? = some xs → ∀ x ∈ xs, isLabel x = true

/-- All members where labels are needed are labels. -/
def OnlyLabels (a : Attributes) : Prop := ∀ key ∈ labelAttributes, a.OnlyLabelsAt key

/-- Labels are texts, and texts are writable. -/
theorem isWritable_of_isLabel (h : isLabel value = true) : value.IsWritable := by
  cases value with
  | str s => exact .text s
  | _ => cases h

/-- Members in order are fit for a label attribute. -/
theorem IsOrdered.isFitAt (h : IsOrdered validated value) (hkey : key ∈ labelAttributes) :
    IsFitAt validated key value := by
  obtain ⟨xs, rfl, hxs⟩ := h
  exact (isFitAt_of_mem hkey).2 ⟨xs, rfl, hxs⟩

/-- Sorting puts the same members in another order, or fails for one that holds a long integer. -/
theorem ends_sorted {sort : Bool} {fit : Prop} (ys : List Datum) :
    Except.Ends (Fault.IsOfSettings validated fit (∀ y ∈ ys, y.holdsLongInteger = false))
      (fun zs => ∀ z ∈ zs, z ∈ ys) (if sort then Datum.sortedByText ys else .ok ys) := by
  split
  · rw [Datum.sortedByText]
    split
    · next hlong =>
      exact .long fun hshort => Bool.eq_false_iff.1 (Datum.anyHoldsLong_eq_false_iff.2 hshort) hlong
    · exact fun z hz => List.mem_mergeSort.1 hz
  · exact fun z hz => hz

/-- Labels are brought in order unless they are not fit, or one that they are sorted by is too
long. -/
theorem ends_normalizedLabels (sort : Bool) (hkey : key ∈ labelAttributes) :
    Except.Ends (Fault.IsOfSettings validated (IsFitAt validated key value)
        (value.holdsLongInteger = false))
      (fun labels => (IsFitAt validated key value → IsOrdered validated labels) ∧
        (value.holdsLongInteger = false → labels.holdsLongInteger = false))
      (normalizedLabels sort value) := by
  rw [normalizedLabels, isFitAt_of_mem hkey]
  cases hmembers : value.members? with
  | none =>
    refine Fault.IsOfSettings.value .shapeless ?_
    rintro ⟨xs, ⟨⟩, -⟩
  | some xs =>
    dsimp only
    cases helements : Datum.elementsOf? xs with
    | none =>
      refine Fault.IsOfSettings.value .unkeyable ?_
      rintro ⟨_, ⟨⟩, hxs⟩
      rw [Datum.elementsOf?, if_pos (List.all_eq_true.2 fun x hx => (hxs x hx).1)] at helements
      cases helements
    | some ys =>
      have hys : ∀ y ∈ ys, y ∈ xs := by
        rw [Datum.elementsOf?] at helements
        split at helements
        · obtain rfl := Option.some.inj helements
          exact fun y hy => mem_of_mem_eraseDups hy
        · cases helements
      have hshort : value.holdsLongInteger = false → ∀ y ∈ ys, y.holdsLongInteger = false :=
        fun h y hy => holdsLongInteger_of_members? hmembers h y (hys y hy)
      refine ((ends_sorted ys).mono (fun _ he => he.mono id hshort) fun _ h => h).map ?_
      intro zs hzs
      constructor
      · rintro ⟨_, ⟨⟩, hxs⟩
        exact ⟨zs, rfl, fun z hz => hxs z (hys z (hzs z hz))⟩
      · exact fun h => Datum.anyHoldsLong_eq_false_iff.2 fun z hz => hshort h z (hzs z hz)

/-- What attributes whose labels were brought in order keep of those before. -/
structure Follows (validated : Bool) (a a' : Attributes) : Prop where
  keys : ∀ k ∈ a.keys, k ∈ a'.keys
  nodup : a.keys.Nodup → a'.keys.Nodup
  fit : a.HoldsFit validated → a'.HoldsFit validated
  short : a.HoldsShort → a'.HoldsShort

theorem Follows.refl (validated : Bool) (a : Attributes) : Follows validated a a :=
  ⟨fun _ => id, id, id, id⟩

/-- Attributes follow those that are followed by what they follow. -/
theorem Follows.trans {mid after : Attributes} (h : Follows validated a mid)
    (h' : Follows validated mid after) : Follows validated a after :=
  ⟨fun k hk => h'.keys k (h.keys k hk), h'.nodup ∘ h.nodup, h'.fit ∘ h.fit, h'.short ∘ h.short⟩

/-- One label attribute is put in order: the others stay as they are, and the faults are those of
its value. -/
theorem ends_normalizeAt (sort : Bool) (a : Attributes) (hkey : key ∈ labelAttributes) :
    Except.Ends (Fault.IsOfSettings validated (a.HoldsFit validated) a.HoldsShort)
      (fun a' : Attributes => Follows validated a a' ∧ (a.HoldsFit validated →
        ∀ value, a'.get? key = some value → IsOrdered validated value))
      (normalizeAt sort a key) := by
  rw [normalizeAt]
  split
  · next hnone =>
    refine ⟨.refl validated a, fun _ value hvalue => ?_⟩
    rw [hnone] at hvalue
    cases hvalue
  · next value hvalue =>
    refine ((ends_normalizedLabels sort hkey).mono
      (fun _ he => he.mono (· key value hvalue) (· key value hvalue)) fun _ h => h).map ?_
    rintro labels ⟨hordered, hshort⟩
    refine ⟨⟨fun k hk => Entries.mem_keys_insert.2 (.inr hk),
      fun hnodup => Entries.nodup_keys_insert hnodup key labels,
      fun h => h.insert ((hordered (h key value hvalue)).isFitAt hkey),
      fun h => h.insert (hshort (h key value hvalue))⟩, fun h value' hget => ?_⟩
    rw [Entries.get?_insert, if_pos (beq_self_eq_true key)] at hget
    exact Option.some.inj hget ▸ hordered (h key value hvalue)

/-- Labels of several attributes are brought in order one after the other, and what comes later
leaves alone what is in order, or brings it in order once more. -/
theorem ends_normalizeAll (sort : Bool) {keys : List String} (a : Attributes)
    (hkeys : ∀ key ∈ keys, key ∈ labelAttributes) :
    Except.Ends (Fault.IsOfSettings validated (a.HoldsFit validated) a.HoldsShort)
      (fun a' : Attributes => Follows validated a a' ∧ (a.HoldsFit validated →
        ∀ key ∈ keys, ∀ value, a'.get? key = some value → IsOrdered validated value))
      (normalizeAll keys a sort) := by
  induction keys generalizing a with
  | nil => exact ⟨.refl validated a, fun _ => List.forall_mem_nil _⟩
  | cons key keys ih =>
    obtain ⟨hkey, hkeys⟩ := List.forall_mem_cons.1 hkeys
    rw [normalizeAll, List.foldlM_cons]
    refine (ends_normalizeAt sort a hkey).bind ?_
    rintro mid - ⟨hmid, hordered⟩
    refine (ih mid hkeys).and_eq.mono (fun _ he => he.mono hmid.fit hmid.short) ?_
    rintro a' ⟨ha', hfollows, hordered'⟩
    refine ⟨hmid.trans hfollows, fun h => List.forall_mem_cons.2 ⟨fun value hvalue => ?_,
      hordered' (hmid.fit h)⟩⟩
    by_cases hmem : key ∈ keys
    · exact hordered' (hmid.fit h) key hmem value hvalue
    · rw [get?_normalizeAll ha' hmem] at hvalue
      exact hordered h value hvalue

/-- Normalizing puts every label attribute in order, or fails by an unfit or long value. -/
theorem ends_normalize (sort : Bool) (a : Attributes) :
    Except.Ends (Fault.IsOfSettings validated (a.HoldsFit validated) a.HoldsShort)
      (fun a' : Attributes => Follows validated a a' ∧
        (a.HoldsFit validated → a'.IsNormal validated))
      (a.normalize sort) :=
  ends_normalizeAll sort a fun _ hkey => hkey

/-- No attribute is given twice by normalizing. -/
theorem nodup_keys_normalize {sort : Bool} {after : Attributes} (h : a.normalize sort = .ok after)
    (hnodup : a.keys.Nodup) : after.keys.Nodup := by
  have hends := @ends_normalize false sort a
  rw [h] at hends
  exact hends.1.nodup hnodup

end Attributes

namespace Target

variable {t : Target} {validated : Bool}

/-! ## Texts -/

/-- Rendering arguments fails as rendering a value does. -/
theorem failsBy_renderArguments {P : Fault → Prop} {es : List (String × Datum)}
    (h : ∀ e ∈ es, Except.FailsBy P e.2.render) :
    Except.FailsBy P (Datum.renderArguments es) := by
  induction es with
  | nil => exact .ok _
  | cons e es ih =>
    obtain ⟨he, hes⟩ := List.forall_mem_cons.1 h
    exact he.bind fun _ => (ih hes).bind fun _ => .ok _

/-- What can be written keeps a target from having a text only for an integer that is too long. -/
theorem failsBy_render_of_isWritable (h : ∀ e ∈ t.attributes, e.2.IsWritable) :
    Except.FailsBy (· = .longInteger) t.render := by
  have harguments : Except.FailsBy (· = .longInteger) (Datum.renderArguments t.attributes) :=
    failsBy_renderArguments fun e he => Datum.failsBy_render_of_isWritable (h e he)
  exact ((harguments.bind fun _ => .ok _).bind fun _ => .ok _).bind fun _ => .ok _

/-- Only values that cannot be written and integers that are too long keep a target from having a
text. -/
theorem ends_render (hnodup : t.attributes.keys.Nodup) :
    Except.Ends (Fault.IsOfSettings validated (∀ e ∈ t.attributes, e.2.IsWritable)
      t.attributes.HoldsShort) (fun _ => True) t.render := by
  rw [← Except.failsBy_iff]
  intro fault hfault
  cases Datum.isOfRendering_of_render hfault with
  | unwritable d =>
    refine .value (.unwritable d) fun h => ?_
    cases failsBy_render_of_isWritable h _ hfault
  | long hlong =>
    refine .long fun hshort => ?_
    rw [holdsLongInteger_toCall] at hlong
    refine Bool.eq_false_iff.1 (Datum.anyArgumentHoldsLong_eq_false_iff.2 fun e he => ?_) hlong
    exact hshort e.1 e.2 ((Entries.get?_eq_some_iff_mem hnodup).2 he)

/-! ## Validation -/

/-- The first member that is no label is looked for. -/
theorem badLabelAt?_of_members {key : String} {value : Datum} {xs : List Datum}
    (hvalue : t.attributes.get? key = some value) (hmembers : value.members? = some xs) :
    t.attributes.badLabelAt? key = .ok (xs.find? fun x => !Attributes.isLabel x) := by
  rw [Attributes.badLabelAt?, hvalue]
  dsimp only
  rw [hmembers]

/-- An attribute that passes has labels only. -/
theorem onlyLabelsAt_of_validateAt {key : String} (h : t.validateAt key = .ok ()) :
    t.attributes.OnlyLabelsAt key := by
  intro value xs hvalue hmembers x hx
  rw [validateAt, Except.bind_of_ok (badLabelAt?_of_members hvalue hmembers)] at h
  cases hfind : xs.find? fun x => !Attributes.isLabel x with
  | none => simpa using List.find?_eq_none.1 hfind x hx
  | some bad =>
    rw [hfind] at h
    obtain ⟨name, -, hthrow⟩ := Except.bind_eq_ok h
    cases hthrow

/-- The labels of a target that is not refused are all labels. -/
theorem onlyLabels_of_validate (h : t.validate = .ok ()) : t.attributes.OnlyLabels := by
  have hall : ∀ keys : List String, keys.forM t.validateAt = .ok () →
      ∀ key ∈ keys, t.attributes.OnlyLabelsAt key := by
    intro keys
    induction keys with
    | nil => exact fun _ => List.forall_mem_nil _
    | cons key keys ih =>
      intro h
      rw [List.forM_eq_forM, List.forM_cons] at h
      obtain ⟨u, hu, hrest⟩ := Except.bind_eq_ok h
      exact List.forall_mem_cons.2 ⟨onlyLabelsAt_of_validateAt hu, ih hrest⟩
  exact hall _ h

/-- Looking for a member that is no label fails only for a value that has no members. -/
theorem ends_badLabelAt? {key : String} (hkey : key ∈ Attributes.labelAttributes) :
    Except.Ends (Fault.IsOfSettings true t.attributes.HasMembers t.attributes.HoldsShort)
      (fun found => ∀ bad, found = some bad → Attributes.isLabel bad = false ∧
        (t.attributes.HoldsShort → bad.holdsLongInteger = false))
      (t.attributes.badLabelAt? key) := by
  rw [Attributes.badLabelAt?]
  cases hvalue : t.attributes.get? key with
  | none =>
    intro bad hbad
    cases hbad
  | some value =>
    dsimp only
    cases hmembers : value.members? with
    | none => exact .value .shapeless fun hall => hall key hkey value hvalue hmembers
    | some xs =>
      intro bad hfind
      refine ⟨by simpa using List.find?_some hfind, fun hshort => ?_⟩
      exact Attributes.holdsLongInteger_of_members? hmembers (hshort key value hvalue) bad
        (List.mem_of_find?_eq_some hfind)

/-- The name of a target that has one can be written unless it is too long. -/
theorem ends_name (hname : "name" ∈ t.attributes.keys) :
    Except.Ends (Fault.IsOfSettings true t.attributes.HasMembers t.attributes.HoldsShort)
      (fun _ => True) t.name := by
  obtain ⟨d, hd⟩ := Option.ne_none_iff_exists'.1 (mt Entries.get?_eq_none_iff.1 (not_not.2 hname))
  rw [name, hd]
  dsimp only
  rw [Datum.written]
  split_ifs with hlong
  · exact .long fun hshort => Bool.eq_false_iff.1 (hshort "name" d hd) hlong
  · trivial

/-- A member that is no label is told of, which needs it to be written. -/
theorem isOfSettings_showing {key name : String} {bad : Datum} {fit short : Prop}
    (hkey : key ∈ Attributes.labelAttributes) (hbad : Attributes.isLabel bad = false)
    (hshort : short → bad.holdsLongInteger = false) :
    (Fault.showing bad (.settings (.badLabel name key bad))).IsOfSettings true fit short := by
  rw [Fault.showing]
  split_ifs with hlong
  · exact .long fun h => Bool.eq_false_iff.1 (hshort h) hlong
  · exact .label rfl ⟨name, key, hkey, bad, hbad, rfl⟩

/-- Validation passes an attribute with labels only. A target is refused for a label that is none,
or for a value that has no members, or because what is to be said of it cannot be written. -/
theorem ends_validateAt {key : String} (hname : "name" ∈ t.attributes.keys)
    (hkey : key ∈ Attributes.labelAttributes) :
    Except.Ends (Fault.IsOfSettings true t.attributes.HasMembers t.attributes.HoldsShort)
      (fun _ => t.attributes.OnlyLabelsAt key) (t.validateAt key) := by
  have hends : Except.Ends
      (Fault.IsOfSettings true t.attributes.HasMembers t.attributes.HoldsShort)
      (fun _ => True) (t.validateAt key) := by
    refine (ends_badLabelAt? hkey).bind fun found _ hfound => ?_
    cases found with
    | none => trivial
    | some bad =>
      obtain ⟨hbad, hshort⟩ := hfound bad rfl
      exact (ends_name hname).bind fun name _ _ => isOfSettings_showing hkey hbad hshort
  exact hends.and_eq.mono (fun _ he => he) fun u hu => onlyLabelsAt_of_validateAt hu.1

/-- A target with a name is refused, or its labels are all labels. -/
theorem ends_validate (hname : "name" ∈ t.attributes.keys) :
    Except.Ends (Fault.IsOfSettings true t.attributes.HasMembers t.attributes.HoldsShort)
      (fun _ => t.attributes.OnlyLabels) t.validate := by
  have hall : ∀ keys ⊆ Attributes.labelAttributes,
      Except.Ends (Fault.IsOfSettings true t.attributes.HasMembers t.attributes.HoldsShort)
        (fun _ => ∀ key ∈ keys, t.attributes.OnlyLabelsAt key) (keys.forM t.validateAt) := by
    intro keys
    induction keys with
    | nil => exact fun _ key hkey => nomatch hkey
    | cons key keys ih =>
      intro hkeys
      obtain ⟨hkey, hkeys⟩ := List.cons_subset.1 hkeys
      rw [List.forM_eq_forM, List.forM_cons]
      exact (ends_validateAt hname hkey).bind fun _ _ hlabels =>
        (ih hkeys).mono (fun _ he => he) fun _ hrest => List.forall_mem_cons.2 ⟨hlabels, hrest⟩
  exact hall _ (List.Subset.refl _)

/-! ## Settled targets -/

/-- The target has a text, or what was set for it is at fault. -/
def IsSettled (validated : Bool) (fit short : Prop) (t : Target) : Prop :=
  Except.Ends (Fault.IsOfSettings validated fit short) (fun _ => True) t.render

/-- Values whose labels are in order and, if this is checked, are labels, can be written if they are
fit. -/
theorem isWritable_of_isNormal (hnodup : t.attributes.keys.Nodup)
    (hfit : t.attributes.HoldsFit validated) (hnormal : t.attributes.IsNormal validated)
    (hlabels : validated = true → t.attributes.OnlyLabels) :
    ∀ e ∈ t.attributes, e.2.IsWritable := by
  intro e he
  have hget : t.attributes.get? e.1 = some e.2 := (Entries.get?_eq_some_iff_mem hnodup).2 he
  by_cases hkey : e.1 ∈ Attributes.labelAttributes
  · obtain ⟨xs, hxs, hall⟩ := hnormal e.1 hkey e.2 hget
    rw [hxs] at hget ⊢
    refine .vector fun x hx => ?_
    -- a label is written anyway, and what need not be one is fit to be written
    cases hvalidated : validated with
    | false => exact (hall x hx).2 hvalidated
    | true =>
      exact Attributes.isWritable_of_isLabel (hlabels hvalidated e.1 hkey _ xs hget rfl x hx)
  · exact (Attributes.isFitAt_of_not_mem hkey).1 (hfit e.1 e.2 hget)

end Target

end BuildFiles
