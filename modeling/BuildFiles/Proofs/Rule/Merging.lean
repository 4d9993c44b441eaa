import BuildFiles.Proofs.Entries
import BuildFiles.Proofs.Rule.Attributes
import Mathlib.Data.List.DropRight
import Mathlib.Logic.Relation

/-!
# What layers of attributes come to

An attribute comes to what the layers that have it give it, one value on top of the other
(`Attributes.get?_merge`). Of those values the topmost counts, or if it is a list, the lists that
lie on top without another value between them, one after the other (`Attributes.combined`). So what
layers come to can be told without laying them over each other, and where lists and other values do
not meet under one name, some layers on top of each other can be merged beforehand
(`Attributes.Layer.merged_eq_of_folds`).
-/

namespace BuildFiles

namespace Datum

/-- A list or a vector. -/
def isSequence (d : Datum) : Bool := d.sequence?.isSome

/-- The items of a list or a vector, and none of anything else. -/
def items (d : Datum) : List Datum := d.sequence?.getD []

theorem isSequence_eq_false_iff {d : Datum} : d.isSequence = false ↔ d.sequence? = none := by
  rw [isSequence, Option.isSome_eq_false_iff, Option.isNone_iff_eq_none]

end Datum

namespace Attributes

/-! ## Values on top of each other -/

section Values

variable {values below on above : List Datum} {value : Datum}

/-- What the values of one attribute come to, of which each lies on top of those before it: the
topmost, or if that is a list, the items of the lists that lie on top with nothing else between
them. -/
def combined (values : List Datum) : Option Datum :=
  values.getLast?.map fun top =>
    if top.isSequence then .vector ((values.rtakeWhile Datum.isSequence).flatMap Datum.items)
    else top

@[simp] theorem combined_nil : combined [] = none := rfl

/-- A sequence on top is joined to the sequences right below it, down to the first value that is
none. -/
theorem combined_concat_of_sequence {items : List Datum} (h : value.sequence? = some items) :
    combined (values ++ [value]) =
      some (.vector ((values.rtakeWhile Datum.isSequence).flatMap Datum.items ++ items)) := by
  have hvalue : value.isSequence = true := by rw [Datum.isSequence, h]; rfl
  have hitems : value.items = items := by rw [Datum.items, h]; rfl
  rw [combined, List.getLast?_concat, Option.map_some, if_pos hvalue,
    List.rtakeWhile_concat_pos _ _ _ hvalue, List.flatMap_append, List.flatMap_singleton, hitems]

/-- Any other value on top hides what is below it. -/
theorem combined_concat_of_scalar (h : value.sequence? = none) :
    combined (values ++ [value]) = some value := by
  rw [combined, List.getLast?_concat, Option.map_some,
    if_neg (Bool.eq_false_iff.1 (Datum.isSequence_eq_false_iff.2 h))]

theorem stacked_of_scalar {below : Option Datum} (h : value.sequence? = none) :
    stacked below value = value := by
  have hvalue : layerValue value = value := by rw [layerValue, h]
  unfold stacked
  split
  · next hitems =>
    rw [h] at hitems
    cases hitems
  · exact hvalue

/-- A sequence on a vector is put behind what is in that. -/
theorem stacked_of_vector {xs items : List Datum} (h : value.sequence? = some items) :
    stacked (some (.vector xs)) value = .vector (xs ++ items) := by
  unfold stacked
  split
  · next xs' ys hbelow hys =>
    cases hbelow
    obtain rfl := Option.some.inj (h.symm.trans hys)
    rfl
  · next hno => exact absurd h (hno xs items rfl)

/-- A list starts anew on top of another value. -/
theorem stacked_of_sequence {below : Option Datum} {items : List Datum}
    (h : value.sequence? = some items) (hbelow : ∀ xs, below ≠ some (.vector xs)) :
    stacked below value = .vector items := by
  have hvalue : layerValue value = .vector items := by rw [layerValue, h]
  unfold stacked
  split
  · next xs ys _ => exact absurd rfl (hbelow xs)
  · exact hvalue

/-- One more value lies on top of what those below come to, which is the step that relates the
closed form to the fold. -/
theorem combined_concat (values : List Datum) (value : Datum) :
    combined (values ++ [value]) = some (stacked (combined values) value) := by
  rcases hvalue : value.sequence? with _ | items
  · rw [combined_concat_of_scalar hvalue, stacked_of_scalar hvalue]
  · rw [combined_concat_of_sequence hvalue]
    -- the run of lists goes on below if there is a list at the top of what was there
    rcases values.eq_nil_or_concat' with rfl | ⟨below, top, rfl⟩
    · rw [combined_nil, stacked_of_sequence hvalue (by simp)]
      rfl
    rcases htop : top.sequence? with _ | items'
    · have hrun : (below ++ [top]).rtakeWhile Datum.isSequence = [] :=
        List.rtakeWhile_concat_neg _ _ _
          (Bool.eq_false_iff.1 (Datum.isSequence_eq_false_iff.2 htop))
      have hne : ∀ xs, some top ≠ some (.vector xs) := by
        rintro xs ⟨⟩
        cases htop
      rw [hrun, combined_concat_of_scalar htop, stacked_of_sequence hvalue hne]
      rfl
    · have hrun : (below ++ [top]).rtakeWhile Datum.isSequence =
          below.rtakeWhile Datum.isSequence ++ [top] :=
        List.rtakeWhile_concat_pos _ _ _ (by rw [Datum.isSequence, htop]; rfl)
      have hitems : top.items = items' := by rw [Datum.items, htop]; rfl
      rw [combined_concat_of_sequence htop, hrun, stacked_of_vector hvalue, List.flatMap_append,
        List.flatMap_singleton, hitems]

/-- Sequences alone are all joined, in their order. -/
theorem combined_of_sequences (h : ∀ v ∈ values, v.isSequence = true) (hne : values ≠ []) :
    combined values = some (.vector (values.flatMap Datum.items)) := by
  have htop := h _ (List.getLast_mem hne)
  rw [combined, List.getLast?_eq_some_getLast hne, Option.map_some, if_pos htop,
    List.rtakeWhile_eq_self_iff.2 h]

/-- Of other values alone the last one counts. -/
theorem combined_of_scalars (h : ∀ v ∈ values, v.isSequence = false) :
    combined values = values.getLast? := by
  rcases values.eq_nil_or_concat' with rfl | ⟨below, top, rfl⟩
  · rfl
  · rw [combined_concat_of_scalar (Datum.isSequence_eq_false_iff.1 (h top (by simp))),
      List.getLast?_concat]

/-- The values are all lists, or none of them is one. -/
def IsUniform (values : List Datum) : Prop :=
  (∀ v ∈ values, v.isSequence = true) ∨ ∀ v ∈ values, v.isSequence = false

variable {sequences : Bool}

/-- What values of one kind come to is of that kind. -/
theorem isSequence_of_combined (h : ∀ v ∈ values, v.isSequence = sequences)
    (hvalue : combined values = some value) : value.isSequence = sequences := by
  have hne : values ≠ [] := by
    rintro rfl
    cases hvalue
  cases sequences with
  | true =>
    rw [combined_of_sequences h hne] at hvalue
    obtain rfl := Option.some.inj hvalue
    rfl
  | false =>
    rw [combined_of_scalars h] at hvalue
    exact h value (List.mem_of_getLast? hvalue)

/-- If all values are sequences, or none is, then that is so after some of them have been
combined. -/
theorem isSequence_fold (h : ∀ v ∈ below ++ on ++ above, v.isSequence = sequences) :
    ∀ v ∈ below ++ (combined on).toList ++ above, v.isSequence = sequences := by
  simp only [List.forall_mem_append] at h ⊢
  obtain ⟨⟨hbelow, hon⟩, habove⟩ := h
  refine ⟨⟨hbelow, fun v hv => ?_⟩, habove⟩
  exact isSequence_of_combined hon (Option.mem_toList.1 hv)

/-- Values that are all sequences, or none, stay so when some of them have been combined. -/
theorem isUniform_fold (h : IsUniform (below ++ on ++ above)) :
    IsUniform (below ++ (combined on).toList ++ above) :=
  h.imp isSequence_fold isSequence_fold

/-- Values in the middle may be replaced by what they come to. -/
theorem combined_fold (h : IsUniform (below ++ on ++ above)) :
    combined (below ++ (combined on).toList ++ above) = combined (below ++ on ++ above) := by
  rcases eq_or_ne on [] with rfl | hne
  · rfl
  rcases h with h | h
  · have hon : ∀ v ∈ on, v.isSequence = true := fun v hv => h v (by simp [hv])
    have hfold := isSequence_fold h
    rw [combined_of_sequences hon hne] at hfold ⊢
    rw [combined_of_sequences h (by simp [hne]), combined_of_sequences hfold (by simp)]
    simp only [Option.toList_some, List.flatMap_append, List.flatMap_singleton]
    rfl
  · have hon : ∀ v ∈ on, v.isSequence = false := fun v hv => h v (by simp [hv])
    have hlast : on.getLast?.toList.getLast? = on.getLast? := by cases on.getLast? <;> rfl
    have hfold := isSequence_fold h
    rw [combined_of_scalars hon] at hfold ⊢
    rw [combined_of_scalars h, combined_of_scalars hfold]
    simp only [List.getLast?_append, hlast]

end Values

/-! ## Layers -/

section Layers

variable {κ : Type}

/-- A layer: attributes that are each given once. -/
@[ext] structure Layer (κ : Type) where
  entries : Entries κ Datum
  nodup : entries.keys.Nodup

namespace Layer

/-- The attributes of a layer, of which there are none if the layer is missing. -/
def given (layer : Option (Layer κ)) : Entries κ Datum := (layer.map entries).getD []

/-- A layer gives no attribute twice. -/
theorem nodup_given (layer : Option (Layer κ)) : (given layer).keys.Nodup := by
  cases layer with
  | none => exact List.nodup_nil
  | some layer => exact layer.nodup

end Layer

variable [BEq κ] {k : κ}

section Merge

variable [LawfulBEq κ]

/-- An attribute of a layer is put on what is there; the others stay. -/
theorem get?_lay {below layer : Entries κ Datum} (h : layer.keys.Nodup) (k : κ) :
    (lay below layer).get? k =
      ((layer.get? k).map (stacked (below.get? k))).or (below.get? k) := by
  induction layer generalizing below with
  | nil => rfl
  | cons e layer ih =>
    obtain ⟨hnot, h⟩ := List.nodup_cons.1 h
    have hlay : lay below (e :: layer) = lay (put below e.1 e.2) layer := rfl
    rw [hlay, ih h, Entries.get?_cons]
    by_cases hk : e.1 = k
    · subst hk
      rw [Entries.get?_eq_none_iff.2 hnot, put, Entries.get?_insert]
      simp
    · rw [get?_put_of_ne hk, if_neg (by simpa using hk)]

/-- The attributes of a layer come behind those that are there already. -/
theorem keys_lay {below : Entries κ Datum} (h : below.keys.Nodup) (layer : Entries κ Datum) :
    (lay below layer).keys = (below.keys ++ layer.keys).eraseDups := by
  have hkeys : ∀ below' : Entries κ Datum, below'.keys = below.keys →
      (lay below' layer).keys = (below.insertAll layer).keys := by
    clear h
    rw [Entries.insertAll]
    induction layer generalizing below with
    | nil => exact fun below' hbelow => hbelow
    | cons e layer ih =>
      intro below' hbelow
      refine ih _ ?_
      have hhas : below'.has e.1 = below.has e.1 := by
        rw [Bool.eq_iff_iff, Entries.has_eq_true_iff, Entries.has_eq_true_iff, hbelow]
      change (below'.insert e.1 _).keys = (below.insert e.1 e.2).keys
      rw [Entries.keys_insert, Entries.keys_insert, hhas, hbelow]
  rw [hkeys below rfl, Entries.keys_insertAll h]

/-- Each attribute comes to what the layers that have it give it. -/
theorem get?_merge {layers : List (Entries κ Datum)} (h : ∀ layer ∈ layers, layer.keys.Nodup)
    (k : κ) : (merge layers).get? k = combined (layers.filterMap (Entries.get? · k)) := by
  rw [merge]
  induction layers using List.reverseRecOn with
  | nil => rfl
  | append_singleton layers layer ih =>
    simp only [List.forall_mem_append, List.forall_mem_singleton] at h
    obtain ⟨hlayers, hlayer⟩ := h
    rw [List.foldl_concat, get?_lay hlayer, ih hlayers, List.filterMap_append]
    cases hvalue : layer.get? k with
    | none => simp [hvalue]
    | some value =>
      simp [hvalue, combined_concat]

/-- The attributes are in the order in which the layers first have them. -/
theorem keys_merge (layers : List (Entries κ Datum)) :
    (merge layers).keys = (layers.flatMap Entries.keys).eraseDups := by
  rw [merge]
  induction layers using List.reverseRecOn with
  | nil => rfl
  | append_singleton layers layer ih =>
    have hnodup : (layers.foldl lay []).keys.Nodup := ih ▸ nodup_eraseDups _
    rw [List.foldl_concat, keys_lay hnodup, ih, List.flatMap_append, List.flatMap_singleton,
      eraseDups_eraseDups_append]

theorem nodup_keys_merge (layers : List (Entries κ Datum)) : (merge layers).keys.Nodup :=
  keys_merge layers ▸ nodup_eraseDups _

/-- Merging gives the attributes of all layers. -/
theorem mem_keys_merge {layers : List (Entries κ Datum)} :
    k ∈ (merge layers).keys ↔ ∃ layer ∈ layers, k ∈ layer.keys := by
  rw [keys_merge, List.mem_eraseDups, List.mem_flatMap]

end Merge

namespace Layer

/-- The values of an attribute in the layers that have it. -/
def values (layers : List (Option (Layer κ))) (k : κ) : List Datum :=
  layers.filterMap fun layer => (given layer).get? k

/-- In no attribute lists and other values meet. -/
def AreUniform (layers : List (Option (Layer κ))) : Prop := ∀ k, IsUniform (values layers k)

variable {layers layers' : List (Option (Layer κ))}

/-- The values of layers are those of the lower ones and those of the upper ones. -/
theorem values_append (k : κ) :
    values (layers ++ layers') k = values layers k ++ values layers' k :=
  List.filterMap_append

variable [LawfulBEq κ]

theorem mem_given_of_mem_values {v : Datum} (h : v ∈ values layers k) :
    ∃ layer ∈ layers, (k, v) ∈ given layer := by
  obtain ⟨layer, hlayer, hv⟩ := List.mem_filterMap.1 h
  exact ⟨layer, hlayer, (Entries.get?_eq_some_iff_mem (nodup_given layer)).1 hv⟩

/-- The layers laid over each other. -/
def merged (layers : List (Option (Layer κ))) : Layer κ where
  entries := merge (layers.map given)
  nodup := nodup_keys_merge _

/-- One step of merging beforehand: some layers on top of each other become one. -/
inductive Folds : List (Option (Layer κ)) → List (Option (Layer κ)) → Prop
  | fold (below group above : List (Option (Layer κ))) :
    Folds (below ++ group ++ above) (below ++ some (merged group) :: above)

/-- What an attribute comes to is what its values are combined to: this is where the fold over the
layers meets the closed form. -/
theorem get?_merged (layers : List (Option (Layer κ))) (k : κ) :
    (merged layers).entries.get? k = combined (values layers k) := by
  have hnodup : ∀ layer ∈ layers.map given, layer.keys.Nodup :=
    List.forall_mem_map.2 fun layer _ => nodup_given layer
  rw [merged, get?_merge hnodup, List.filterMap_map]
  rfl

/-- The attributes come in the order in which they are first given. -/
theorem keys_merged (layers : List (Option (Layer κ))) :
    (merged layers).entries.keys = (layers.flatMap fun layer => (given layer).keys).eraseDups := by
  rw [merged, keys_merge, List.flatMap_map]

/-- The attributes that come out of merging are those of the layers, no more and no less. -/
theorem mem_keys_merged : k ∈ (merged layers).entries.keys ↔
    ∃ layer, some layer ∈ layers ∧ k ∈ layer.entries.keys := by
  rw [keys_merged, List.mem_eraseDups, List.mem_flatMap]
  constructor
  · rintro ⟨layer, hlayer, hk⟩
    cases layer with
    | none => cases hk
    | some layer => exact ⟨layer, hlayer, hk⟩
  · rintro ⟨layer, hlayer, hk⟩
    exact ⟨some layer, hlayer, hk⟩

/-- In the place of layers that were merged, an attribute has what it was combined to there. -/
theorem values_fold (below group above : List (Option (Layer κ))) (k : κ) :
    values (below ++ some (merged group) :: above) k =
      values below k ++ (combined (values group k)).toList ++ values above k := by
  rw [values_append, ← get?_merged, List.append_assoc]
  congr 1
  have hgiven : given (some (merged group)) = (merged group).entries := rfl
  rw [values, List.filterMap_cons, hgiven]
  cases (merged group).entries.get? k <;> rfl

/-- Merging some of the layers keeps the values of each attribute of one kind. -/
theorem Folds.areUniform (h : Folds layers layers') (hlayers : AreUniform layers) :
    AreUniform layers' := by
  obtain ⟨below, group, above⟩ := h
  intro k
  rw [values_fold]
  refine isUniform_fold ?_
  rw [← values_append, ← values_append]
  exact hlayers k

/-- If they are of one kind, merging some of the layers first makes no difference to the result. -/
theorem Folds.merged_eq (h : Folds layers layers') (hlayers : AreUniform layers) :
    merged layers' = merged layers := by
  obtain ⟨below, group, above⟩ := h
  have hkeys : (merged (below ++ some (merged group) :: above)).entries.keys =
      (merged (below ++ group ++ above)).entries.keys := by
    rw [keys_merged, keys_merged]
    have hgiven : given (some (merged group)) = (merged group).entries := rfl
    simp only [List.flatMap_append, List.flatMap_cons, hgiven, keys_merged]
    rw [List.append_assoc, ← eraseDups_append_eraseDups, eraseDups_eraseDups_append,
      eraseDups_append_eraseDups]
  refine Layer.ext (Entries.eq_of_get? (merged _).nodup hkeys fun k => ?_)
  rw [get?_merged, get?_merged, values_fold, values_append, values_append]
  refine combined_fold ?_
  rw [← values_append, ← values_append]
  exact hlayers k

/-- So layers of one kind can be merged in any groups, one group after the other. -/
theorem merged_eq_of_folds (h : Relation.ReflTransGen Folds layers layers')
    (hlayers : AreUniform layers) : AreUniform layers' ∧ merged layers' = merged layers := by
  induction h with
  | refl => exact ⟨hlayers, rfl⟩
  | tail _ hstep ih =>
    obtain ⟨huniform, hmerged⟩ := ih
    exact ⟨hstep.areUniform huniform, (hstep.merged_eq huniform).trans hmerged⟩

/-- Layers come to the attributes that one of them has, in the order in which they first occur, and
each of them to its topmost value or to the lists that lie on top of each other there. Some of the
layers can be merged beforehand, again and again, if in no attribute lists and other values meet. -/
theorem merged_of_layers (layers : List (Option (Layer κ))) :
    (∀ k, (k ∈ (merged layers).entries.keys ↔
        ∃ layer, some layer ∈ layers ∧ k ∈ layer.entries.keys) ∧
      (merged layers).entries.get? k = combined (values layers k)) ∧
    (merged layers).entries.keys = (layers.flatMap fun layer => (given layer).keys).eraseDups ∧
    (AreUniform layers → ∀ layers', Relation.ReflTransGen Folds layers layers' →
      merged layers' = merged layers) :=
  ⟨fun k => ⟨mem_keys_merged, get?_merged layers k⟩, keys_merged layers,
    fun huniform _ hfolds => (merged_eq_of_folds hfolds huniform).2⟩

/-- Layers with labels and a size, of which one is missing. -/
def sized : List (Option (Layer String)) :=
  [some ⟨[("deps", .vector [.str ":a"]), ("size", .str "small")], by decide⟩, none,
    some ⟨[("tags", .list []), ("deps", .list [.str ":b", .str ":a"])], by decide⟩,
    some ⟨[("size", .str "large"), ("deps", .vector [.str ":c"])], by decide⟩]

theorem areUniform_sized : AreUniform sized := by
  have hkinds : ∀ layer ∈ sized, ∀ e ∈ given layer, e.2.isSequence = decide (e.1 ≠ "size") := by
    decide
  intro k
  have hvalues : ∀ v ∈ values sized k, v.isSequence = decide (k ≠ "size") := by
    intro v hv
    obtain ⟨layer, hlayer, hmem⟩ := mem_given_of_mem_values hv
    exact hkinds layer hlayer _ hmem
  by_cases hsize : k = "size"
  · exact .inr (by simpa [hsize] using hvalues)
  · exact .inl (by simpa [hsize] using hvalues)

/-- The last two layers may be merged first. -/
theorem merged_of_layers_sized : AreUniform sized ∧
    (merged sized).entries = [("deps", .vector [.str ":a", .str ":b", .str ":a", .str ":c"]),
      ("size", .str "large"), ("tags", .vector [])] ∧
    merged (sized.take 2 ++ [some (merged (sized.drop 2))]) = merged sized := by
  obtain ⟨-, -, hfold⟩ := merged_of_layers sized
  refine ⟨areUniform_sized, rfl, hfold areUniform_sized _ (.single ?_)⟩
  exact .fold (sized.take 2) (sized.drop 2) []

/-- Where a list lies on top of another value, what was merged beforehand is another list. -/
example :
    let labels (d : Datum) : Option (Layer String) := some ⟨[("deps", d)], by simp [Entries.keys]⟩
    let top := [labels (.str ":b"), labels (.vector [.str ":c"])]
    (merged (labels (.vector [.str ":a"]) :: top)).entries = [("deps", .vector [.str ":c"])] ∧
      (merged [labels (.vector [.str ":a"]), some (merged top)]).entries =
        [("deps", .vector [.str ":a", .str ":c"])] := ⟨rfl, rfl⟩

end Layer

end Layers

end Attributes

end BuildFiles
