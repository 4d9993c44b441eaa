import BuildFiles.Entries
import BuildFiles.Proofs.Text

/-!
# Maps that are written one entry after the other

What such a map holds at a key is what was written there last (`Entries.get?_ofList`). Where the
entries are written in rounds, that is what the last round with the key writes
(`Entries.get?_ofList_flatMap`); where a key is written only while it is new, what came first stays
(`Entries.get?_foldl_insertNew`). `IsFirstWith` and `IsLastWith` say which item of a list that is.
-/

namespace BuildFiles

/-! ## The first and the last item of a kind -/

section Items

variable {α β : Type} {p : α → Prop} {l : List α} {a : α}

/-- The item is the first of the list of which the property holds. -/
def IsFirstWith (p : α → Prop) (l : List α) (a : α) : Prop :=
  ∃ before after, l = before ++ a :: after ∧ p a ∧ ∀ x ∈ before, ¬ p x

/-- The item is the last of the list of which the property holds. -/
def IsLastWith (p : α → Prop) (l : List α) (a : α) : Prop :=
  ∃ before after, l = before ++ a :: after ∧ p a ∧ ∀ x ∈ after, ¬ p x

theorem find?_eq_some_iff_isFirstWith {test : α → Bool} :
    l.find? test = some a ↔ IsFirstWith (fun x => test x = true) l a := by
  rw [List.find?_eq_some_iff_append, IsFirstWith]
  constructor
  · rintro ⟨hp, before, after, rfl, hbefore⟩
    exact ⟨before, after, rfl, hp, fun x hx => by simpa using hbefore x hx⟩
  · rintro ⟨before, after, rfl, hp, hbefore⟩
    exact ⟨hp, before, after, rfl, fun x hx => by simpa using hbefore x hx⟩

theorem isFirstWith_reverse : IsFirstWith p l.reverse a ↔ IsLastWith p l a := by
  constructor
  · rintro ⟨before, after, hl, hp, hbefore⟩
    refine ⟨after.reverse, before.reverse, ?_, hp, fun x hx => hbefore x (List.mem_reverse.1 hx)⟩
    rw [← List.reverse_reverse l, hl]
    simp
  · rintro ⟨before, after, rfl, hp, hafter⟩
    exact ⟨after.reverse, before.reverse, by simp, hp, fun x hx =>
      hafter x (List.mem_reverse.1 hx)⟩

/-- What the first item that gives something gives. -/
theorem findSome?_eq_some_iff_isFirstWith {f : α → Option β} {b : β} :
    l.findSome? f = some b ↔ ∃ a, IsFirstWith (fun x => f x ≠ none) l a ∧ f a = some b := by
  rw [List.findSome?_eq_some_iff]
  constructor
  · rintro ⟨before, a, after, rfl, ha, hbefore⟩
    exact ⟨a, ⟨before, after, rfl, by simp [ha], fun x hx => not_not.2 (hbefore x hx)⟩, ha⟩
  · rintro ⟨a, ⟨before, after, rfl, -, hbefore⟩, ha⟩
    exact ⟨before, a, after, rfl, ha, fun x hx => not_not.1 (hbefore x hx)⟩

theorem IsFirstWith.mem (h : IsFirstWith p l a) : a ∈ l := by
  obtain ⟨before, after, rfl, -⟩ := h
  exact List.mem_append_right _ List.mem_cons_self

theorem IsLastWith.mem (h : IsLastWith p l a) : a ∈ l := by
  obtain ⟨before, after, rfl, -⟩ := h
  exact List.mem_append_right _ List.mem_cons_self

theorem isLastWith_map {f : α → β} {p : β → Prop} {b : β} :
    IsLastWith p (l.map f) b ↔ ∃ a, IsLastWith (fun a => p (f a)) l a ∧ f a = b := by
  constructor
  · rintro ⟨before, after, hl, hp, hafter⟩
    obtain ⟨before', rest, rfl, rfl, hrest⟩ := List.map_eq_append_iff.1 hl
    obtain ⟨a, after', rfl, rfl, rfl⟩ := List.map_eq_cons_iff.1 hrest
    exact ⟨a, ⟨before', after', rfl, hp, fun x hx => hafter _ (List.mem_map_of_mem hx)⟩, rfl⟩
  · rintro ⟨a, ⟨before, after, rfl, hp, hafter⟩, rfl⟩
    refine ⟨before.map f, after.map f, by simp, hp, ?_⟩
    intro x hx
    obtain ⟨y, hy, rfl⟩ := List.mem_map.1 hx
    exact hafter y hy

/-- Only the items of the list matter. -/
theorem isFirstWith_congr {q : α → Prop} (h : ∀ x ∈ l, (p x ↔ q x)) :
    IsFirstWith p l a ↔ IsFirstWith q l a := by
  refine exists_congr fun before => exists_congr fun after => and_congr_right ?_
  rintro rfl
  refine and_congr (h a (List.mem_append_right _ List.mem_cons_self)) ?_
  exact forall₂_congr fun x hx => not_congr (h x (List.mem_append_left _ hx))

/-- What the first item gives to which something is given. -/
theorem findSome?_eq_some_iff_of {f : α → Option β} {gives : α → β → Prop}
    (hf : ∀ a ∈ l, ∀ b, f a = some b ↔ gives a b) {b : β} :
    l.findSome? f = some b ↔ ∃ a, IsFirstWith (fun a => ∃ b, gives a b) l a ∧ gives a b := by
  have hsome : ∀ a ∈ l, (f a ≠ none ↔ ∃ b, gives a b) := fun a ha =>
    Option.ne_none_iff_exists'.trans (exists_congr (hf a ha))
  rw [findSome?_eq_some_iff_isFirstWith]
  simp only [isFirstWith_congr hsome]
  exact exists_congr fun a => and_congr_right fun hfirst => hf a hfirst.mem b

end Items

namespace Entries

variable {α β γ : Type} [BEq α]

theorem get?_append (es es' : Entries α β) (k : α) :
    get? (es ++ es') k = (es.get? k).or (get? es' k) := by
  rw [get?, List.find?_append, get?, get?]
  cases es.find? fun e => e.1 == k <;> rfl

theorem get?_flatMap (rounds : List γ) (f : γ → Entries α β) (k : α) :
    get? (rounds.flatMap f) k = rounds.findSome? fun c => (f c).get? k := by
  induction rounds with
  | nil => rfl
  | cons c rounds ih =>
    rw [List.flatMap_cons, get?_append, ih, List.findSome?_cons]
    cases (f c).get? k <;> rfl

/-- What holds of all keys and values that are written holds of all that are there. -/
theorem forall_insertAll {P : α → Prop} {Q : β → Prop} {es new : Entries α β}
    (h : ∀ e ∈ es, P e.1 ∧ Q e.2) (hnew : ∀ e ∈ new, P e.1 ∧ Q e.2) :
    ∀ e ∈ es.insertAll new, P e.1 ∧ Q e.2 := by
  have hinsert : ∀ (es : Entries α β) k v, (∀ e ∈ es, P e.1 ∧ Q e.2) → P k → Q v →
      ∀ e ∈ es.insert k v, P e.1 ∧ Q e.2 := by
    intro es k v h hk hv
    induction es with
    | nil => exact List.forall_mem_singleton.2 ⟨hk, hv⟩
    | cons e es ih =>
      obtain ⟨he, h⟩ := List.forall_mem_cons.1 h
      rw [insert]
      split
      · exact List.forall_mem_cons.2 ⟨⟨he.1, hv⟩, h⟩
      · exact List.forall_mem_cons.2 ⟨he, ih h⟩
  rw [insertAll]
  induction new generalizing es with
  | nil => exact h
  | cons e new ih =>
    obtain ⟨⟨hk, hv⟩, hnew⟩ := List.forall_mem_cons.1 hnew
    exact ih (hinsert es e.1 e.2 h hk hv) hnew

theorem keys_insertNew (es : Entries α β) (k : α) (v : β) :
    (es.insertNew k v).keys = if es.has k then es.keys else es.keys ++ [k] := by
  rw [insertNew]
  split
  · rfl
  · rw [keys, List.map_append]
    rfl

variable [LawfulBEq α]

/-- A map that gives each of its keys a value of its own. -/
theorem get?_map_keys (ks : List α) (value : α → β) (k : α) :
    get? (ks.map fun k => (k, value k)) k = if k ∈ ks then some (value k) else none := by
  induction ks with
  | nil => rfl
  | cons k' ks ih =>
    rw [List.map_cons, get?_cons, ih]
    by_cases hk : k' = k
    · simp [hk]
    · simp [hk, Ne.symm hk]

/-! ## Writing over what is there -/

/-- What was written last is there, or else what was there before. -/
theorem get?_insertAll (es : Entries α β) (new : List (α × β)) (k : α) :
    (es.insertAll new).get? k = (get? new.reverse k).or (es.get? k) := by
  rw [insertAll]
  induction new generalizing es with
  | nil => rfl
  | cons e new ih =>
    rw [List.foldl_cons, ih, List.reverse_cons, get?_append, Option.or_assoc, get?_insert,
      get?_cons, get?_nil]
    split <;> simp

/-- The value that is last under a key. -/
theorem get?_reverse_eq_some {es : Entries α β} {k : α} {v : β} :
    get? es.reverse k = some v ↔ IsLastWith (fun e => e.1 = k) es (k, v) := by
  rw [get?, Option.map_eq_some_iff, ← isFirstWith_reverse]
  simp only [find?_eq_some_iff_isFirstWith, beq_iff_eq]
  constructor
  · rintro ⟨⟨k', v'⟩, hfirst, rfl⟩
    obtain ⟨before, after, hes, rfl, hbefore⟩ := id hfirst
    exact hfirst
  · exact fun hfirst => ⟨(k, v), hfirst, rfl⟩

theorem get?_ofList (new : List (α × β)) (k : α) : (ofList new).get? k = get? new.reverse k := by
  rw [ofList, get?_insertAll, get?_nil, Option.or_none]

theorem mem_keys_ofList {new : List (α × β)} {k : α} : k ∈ (ofList new).keys ↔ k ∈ keys new := by
  rw [ofList, mem_keys_insertAll]
  simp [keys]

/-- The entries are written in rounds, each of which writes a value of its own to each of its
keys. The last round that has a key decides what is there. -/
theorem get?_ofList_flatMap {rounds : List γ} {keysOf : γ → List α} {value : γ → α → β} {k : α}
    {v : β} :
    (ofList (rounds.flatMap fun c => (keysOf c).map fun k => (k, value c k))).get? k = some v ↔
      ∃ c, IsLastWith (fun c => k ∈ keysOf c) rounds c ∧ v = value c k := by
  have hround : ∀ c, get? ((keysOf c).map fun k => (k, value c k)).reverse k =
      if k ∈ keysOf c then some (value c k) else none := by
    intro c
    rw [← List.map_reverse, get?_map_keys]
    simp only [List.mem_reverse]
  have hholds : (fun c => get? ((keysOf c).map fun k => (k, value c k)).reverse k ≠ none) =
      fun c => k ∈ keysOf c := by
    funext c
    rw [hround]
    simp
  rw [get?_ofList, List.reverse_flatMap, get?_flatMap, findSome?_eq_some_iff_isFirstWith]
  simp only [Function.comp_def]
  rw [hholds]
  simp only [isFirstWith_reverse]
  refine exists_congr fun c => and_congr_right fun ⟨before, after, _, hk, _⟩ => ?_
  rw [hround, if_pos hk, Option.some.injEq, eq_comm]

/-! ## Writing what is new -/

theorem get?_insertNew (es : Entries α β) (k k' : α) (v : β) :
    (es.insertNew k v).get? k' = (es.get? k').or (if k == k' then some v else none) := by
  rw [insertNew, has_eq_isSome]
  split
  · next hk =>
    split
    · next hsame =>
      obtain rfl := eq_of_beq hsame
      obtain ⟨v', hv'⟩ := Option.isSome_iff_exists.1 hk
      rw [hv']
      rfl
    · rw [Option.or_none]
  · rw [get?_append, get?_cons, get?_nil]

/-- What was written first at a new key is there. -/
theorem get?_foldl_insertNew {key : γ → α} {value : γ → β} (es : Entries α β) (l : List γ) (k : α) :
    (l.foldl (fun es c => es.insertNew (key c) (value c)) es).get? k =
      (es.get? k).or ((l.find? fun c => key c == k).map value) := by
  induction l generalizing es with
  | nil => simp
  | cons c l ih =>
    rw [List.foldl_cons, ih, get?_insertNew, Option.or_assoc, List.find?_cons]
    cases key c == k <;> simp

/-! ## Maps with each key once -/

/-- A loop that writes keys only where they are new brings them in the order in which they come
first. -/
theorem keys_foldl {write : Entries α β → γ → Entries α β} {key : γ → α}
    (hwrite : ∀ es c, (write es c).keys = if es.has (key c) then es.keys else es.keys ++ [key c])
    {es : Entries α β} (h : es.keys.Nodup) (l : List γ) :
    (l.foldl write es).keys = (es.keys ++ l.map key).eraseDups := by
  induction l generalizing es with
  | nil => rw [List.foldl_nil, List.map_nil, List.append_nil, eraseDups_of_nodup h]
  | cons c l ih =>
    have hone : (es.keys ++ key c :: l.map key).eraseDups =
        ((write es c).keys ++ l.map key).eraseDups := by
      rw [hwrite]
      split
      · next hc =>
        rw [has_eq_true_iff] at hc
        rw [List.eraseDups_append, List.eraseDups_append, List.removeAll, List.removeAll,
          List.filter_cons_of_neg (by simpa using hc)]
      · rw [List.append_assoc]
        rfl
    have hnodup : (write es c).keys.Nodup := by
      rw [hwrite]
      split
      · exact h
      · next hc =>
        rw [has_eq_true_iff] at hc
        rw [← List.concat_eq_append]
        exact h.concat hc
    rw [List.foldl_cons, ih hnodup, List.map_cons, hone]

/-- The keys are in the order in which they are first written. -/
theorem keys_insertAll {es : Entries α β} (h : es.keys.Nodup) (new : List (α × β)) :
    (es.insertAll new).keys = (es.keys ++ keys new).eraseDups :=
  keys_foldl (fun es e => keys_insert es e.1 e.2) h new

/-- A map gives each of its keys the value that is written with it. -/
theorem get?_eq_some_iff_mem {es : Entries α β} (h : es.keys.Nodup) {k : α} {v : β} :
    es.get? k = some v ↔ (k, v) ∈ es := by
  induction es with
  | nil => simp
  | cons e es ih =>
    obtain ⟨hnot, hes⟩ := List.nodup_cons.1 h
    obtain ⟨k', v'⟩ := e
    rw [get?_cons, List.mem_cons]
    by_cases hk : k' = k
    · subst hk
      have hout : (k', v) ∉ es := fun hmem => hnot (List.mem_map.2 ⟨_, hmem, rfl⟩)
      simp [hout, eq_comm]
    · simp [hk, Ne.symm hk, ih hes]

theorem get?_reverse_of_nodup {es : Entries α β} (h : es.keys.Nodup) (k : α) :
    get? es.reverse k = es.get? k := by
  have hreverse : (keys es.reverse).Nodup := ((es.reverse_perm.map Prod.fst).nodup_iff).2 h
  ext v
  rw [get?_eq_some_iff_mem hreverse, get?_eq_some_iff_mem h, List.mem_reverse]

/-- New keys are written in their order. -/
theorem insertAll_of_nodup {es new : Entries α β} (h : (keys (es ++ new)).Nodup) :
    es.insertAll new = es ++ new := by
  rw [insertAll]
  induction new generalizing es with
  | nil => rw [List.append_nil]; rfl
  | cons e new ih =>
    have hnone : es.get? e.1 = none := by
      rw [keys, List.map_append, List.map_cons, List.nodup_middle, List.nodup_cons] at h
      exact get?_eq_none_iff.2 fun hmem => h.1 (List.mem_append_left _ hmem)
    rw [List.append_cons] at h ⊢
    rw [List.foldl_cons, insert_eq_append e.2 hnone]
    exact ih h

/-- Entries with each key once make up the map that results from writing them. -/
theorem ofList_of_nodup {new : Entries α β} (h : new.keys.Nodup) : ofList new = new := by
  have hall : insertAll [] new = [] ++ new := insertAll_of_nodup h
  exact hall

theorem isLastWith_keys {es : Entries α β} (h : es.keys.Nodup) {p : α → Prop} {k : α} {v : β} :
    IsLastWith (fun e => p e.1) es (k, v) ↔ IsLastWith p es.keys k ∧ es.get? k = some v := by
  rw [get?_eq_some_iff_mem h, keys, isLastWith_map]
  constructor
  · intro hlast
    exact ⟨⟨(k, v), hlast, rfl⟩, hlast.mem⟩
  · rintro ⟨⟨⟨k', v'⟩, hlast, rfl⟩, hv⟩
    have hsame : v' = v := Option.some.inj
      (((get?_eq_some_iff_mem h).2 hlast.mem).symm.trans ((get?_eq_some_iff_mem h).2 hv))
    exact hsame ▸ hlast

/-- Where no key is twice, the entries of a key are the one that is found there. -/
theorem values_filter_of_nodup {es : Entries α β} (h : es.keys.Nodup) (k : α) :
    values (es.filter fun e => e.1 == k) = (es.get? k).toList := by
  induction es with
  | nil => rfl
  | cons e es ih =>
    obtain ⟨hnot, hes⟩ := List.nodup_cons.1 h
    rw [List.filter_cons, get?_cons]
    split
    · next hk =>
      have hrest : es.filter (fun e' => e'.1 == k) = [] := by
        refine List.filter_eq_nil_iff.2 fun e' he' hk' => hnot ?_
        rw [eq_of_beq hk, ← eq_of_beq hk']
        exact List.mem_map_of_mem he'
      rw [hrest]
      rfl
    · exact ih hes

/-- A map gives its keys the values that it gives them: entries without a repeated key are told by
their keys, in order, and by what is found under each. -/
theorem eq_of_get? {es es' : Entries α β} (hnodup : es.keys.Nodup) (hkeys : es.keys = es'.keys)
    (h : ∀ k, es.get? k = es'.get? k) : es = es' := by
  induction es generalizing es' with
  | nil =>
    cases es' with
    | nil => rfl
    | cons e' es' => cases hkeys
  | cons e es ih =>
    cases es' with
    | nil => cases hkeys
    | cons e' es' =>
      obtain ⟨k, v⟩ := e
      obtain ⟨k', v'⟩ := e'
      have hcons : k :: keys es = k' :: keys es' := hkeys
      obtain ⟨rfl, htail⟩ := List.cons.inj hcons
      obtain ⟨hk, hnodup⟩ := List.nodup_cons.1 hnodup
      have hv : some v = some v' := by simpa [get?_cons] using h k
      obtain rfl := Option.some.inj hv
      refine congrArg _ (ih hnodup htail fun k' => ?_)
      by_cases hne : k = k'
      · subst hne
        rw [get?_eq_none_iff.2 hk, get?_eq_none_iff.2 (htail ▸ hk)]
      · simpa [get?_cons, hne] using h k'

end Entries

end BuildFiles
