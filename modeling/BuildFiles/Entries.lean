/-!
# Entries

A finite map as the list of its entries, in the order in which the keys were first written. Writing
to a key that is there keeps the key and its place and replaces the value, so an answer shows keys
in the order of their first mention and values of their last. `get?_insert` and `keys_insert` are
the laws of writing.
-/

namespace BuildFiles

/-- The entries of a finite map, in the order in which their keys were first written. -/
abbrev Entries (α β : Type) := List (α × β)

namespace Entries

variable {α β γ : Type}

/-- The keys in order. -/
def keys (es : Entries α β) : List α := es.map Prod.fst

/-- The values in the order of their keys. -/
def values (es : Entries α β) : List β := es.map Prod.snd

variable [BEq α]

/-- The value at a key. -/
def get? (es : Entries α β) (k : α) : Option β := (es.find? fun e => e.1 == k).map Prod.snd

/-- There is a value at the key. -/
def has (es : Entries α β) (k : α) : Bool := es.any fun e => e.1 == k

/-- Write a value at a key. -/
def insert : Entries α β → α → β → Entries α β
  | [], k, v => [(k, v)]
  | (k', v') :: es, k, v => if k' == k then (k', v) :: es else (k', v') :: insert es k v

/-- Write the given entries one after the other. -/
def insertAll (es : Entries α β) (new : List (α × β)) : Entries α β :=
  new.foldl (fun acc e => acc.insert e.1 e.2) es

/-- The map that results from writing the given entries one after the other. -/
def ofList (new : List (α × β)) : Entries α β := insertAll [] new

/-- Write a value only if the key has none. -/
def insertNew (es : Entries α β) (k : α) (v : β) : Entries α β :=
  if es.has k then es else es ++ [(k, v)]

@[simp] theorem get?_nil (k : α) : get? ([] : Entries α β) k = none := rfl

/-- A key is looked up in the first entry, and then in the others. -/
theorem get?_cons (e : α × β) (es : Entries α β) (k : α) :
    get? (e :: es) k = if e.1 == k then some e.2 else get? es k := by
  simp only [get?, List.find?_cons]
  split <;> simp_all

/-- A key that is put in has the new value; the others keep theirs. -/
theorem get?_insert [LawfulBEq α] (es : Entries α β) (k k' : α) (v : β) :
    (es.insert k v).get? k' = if k == k' then some v else es.get? k' := by
  induction es with
  | nil => simp [insert, get?_cons]
  | cons e es ih =>
    obtain ⟨x, y⟩ := e
    by_cases hk : x = k
    · subst hk
      by_cases hx : x = k' <;> simp [insert, get?_cons, hx]
    · by_cases hx : x = k'
      · subst hx
        simp [insert, get?_cons, hk, Ne.symm hk]
      · simp [insert, get?_cons, hk, hx, ih]

theorem has_eq_isSome (es : Entries α β) (k : α) : es.has k = (es.get? k).isSome := by
  induction es with
  | nil => rfl
  | cons e es ih =>
    rw [get?_cons]
    by_cases h : e.1 == k <;> simp_all [has]

/-- A new key comes last; one that is there stays where it is. -/
theorem keys_insert [LawfulBEq α] (es : Entries α β) (k : α) (v : β) :
    (es.insert k v).keys = if es.has k then es.keys else es.keys ++ [k] := by
  induction es with
  | nil => simp [insert, has, keys]
  | cons e es ih =>
    obtain ⟨x, y⟩ := e
    by_cases hx : x = k
    · simp [insert, has, keys, hx]
    · simp only [insert, beq_iff_eq, hx, if_false, keys, List.map_cons] at ih ⊢
      rw [ih]
      by_cases hk : has es k = true
      · simp_all [has]
      · simp_all [has]

theorem length_le_insert [LawfulBEq α] (es : Entries α β) (k : α) (v : β) :
    es.length ≤ (es.insert k v).length := by
  have hlength : ∀ es : Entries α β, es.length = es.keys.length :=
    fun es => (List.length_map Prod.fst).symm
  rw [hlength, hlength, keys_insert]
  split
  · exact Nat.le_refl _
  · simp

/-- Nothing is found just for what is no key. -/
theorem get?_eq_none_iff [LawfulBEq α] {es : Entries α β} {k : α} :
    es.get? k = none ↔ k ∉ es.keys := by
  induction es with
  | nil => simp [keys]
  | cons e es ih =>
    rw [get?_cons]
    by_cases he : e.1 = k
    · simp [keys, he]
    · simp only [beq_iff_eq, he, if_false, ih]
      simp [keys, Ne.symm he]

/-- A new key is written after those that are there. -/
theorem insert_eq_append [LawfulBEq α] {es : Entries α β} {k : α} (v : β)
    (h : es.get? k = none) : es.insert k v = es ++ [(k, v)] := by
  induction es with
  | nil => rfl
  | cons e es ih =>
    rw [get?_cons] at h
    by_cases he : e.1 = k
    · simp [he] at h
    · simp only [beq_iff_eq, he, if_false] at h
      simp only [insert, beq_iff_eq, he, if_false, ih h, List.cons_append]

/-- Writing the value that is there changes nothing. -/
theorem insert_of_get? [LawfulBEq α] {es : Entries α β} {k : α} {v : β}
    (h : es.get? k = some v) : es.insert k v = es := by
  induction es with
  | nil => cases h
  | cons e es ih =>
    obtain ⟨k', v'⟩ := e
    rw [get?_cons] at h
    rw [insert]
    split at h
    · next hk =>
      obtain rfl := Option.some.inj h
      rw [if_pos hk]
    · next hk => rw [if_neg hk, ih h]

/-- What is kept is found, and the rest is not. -/
theorem get?_filter [LawfulBEq α] (keep : α → Bool) (es : Entries α β) (k : α) :
    get? (es.filter fun e => keep e.1) k = if keep k then es.get? k else none := by
  induction es with
  | nil => simp
  | cons e es ih =>
    by_cases he : e.1 = k
    · subst he
      by_cases hk : keep e.1 <;> simp [hk, get?_cons, ih]
    · by_cases hk : keep e.1 <;> simp [hk, get?_cons, ih, he]

/-- Writing to a key that is left out changes nothing of what is left. -/
theorem filter_insert [LawfulBEq α] (keep : α → Bool) {k : α} (h : keep k = false)
    (es : Entries α β) (v : β) :
    (es.insert k v).filter (fun e => keep e.1) = es.filter fun e => keep e.1 := by
  induction es with
  | nil => simp [insert, h]
  | cons e es ih =>
    rw [insert]
    split
    · next hk =>
      obtain rfl := eq_of_beq hk
      simp [h]
    · simp only [List.filter_cons, ih]

/-- Putting in makes no key double. -/
theorem nodup_keys_insert [LawfulBEq α] {es : Entries α β} (h : es.keys.Nodup) (k : α) (v : β) :
    (es.insert k v).keys.Nodup := by
  rw [keys_insert]
  split
  · exact h
  · next hk =>
    rw [has_eq_isSome, Bool.not_eq_true, Option.isSome_eq_false_iff, Option.isNone_iff_eq_none,
      get?_eq_none_iff] at hk
    rw [List.nodup_append]
    refine ⟨h, by simp, ?_⟩
    rintro a ha b hb rfl
    exact hk (List.mem_singleton.1 hb ▸ ha)

/-- Putting in several entries, one after the other, makes no key double either. -/
theorem nodup_keys_insertAll [LawfulBEq α] {es : Entries α β} (h : es.keys.Nodup)
    (new : List (α × β)) : (es.insertAll new).keys.Nodup := by
  rw [insertAll]
  induction new generalizing es with
  | nil => exact h
  | cons e new ih =>
    rw [List.foldl_cons]
    exact ih (nodup_keys_insert h e.1 e.2)

theorem has_eq_true_iff [LawfulBEq α] {es : Entries α β} {k : α} :
    es.has k = true ↔ k ∈ es.keys := by
  simp only [has, keys, List.any_eq_true, beq_iff_eq, List.mem_map]

/-- The keys after putting in one. -/
theorem mem_keys_insert [LawfulBEq α] {es : Entries α β} {k k' : α} {v : β} :
    k' ∈ (es.insert k v).keys ↔ k' = k ∨ k' ∈ es.keys := by
  rw [keys_insert]
  split
  · next hk => exact ⟨.inr, fun h => h.elim (fun h => h ▸ has_eq_true_iff.1 hk) id⟩
  · rw [List.mem_append, List.mem_singleton, or_comm]

/-- The keys after putting in several. -/
theorem mem_keys_insertAll [LawfulBEq α] {es : Entries α β} {new : List (α × β)} {k : α} :
    k ∈ (es.insertAll new).keys ↔ k ∈ keys new ∨ k ∈ es.keys := by
  rw [insertAll]
  induction new generalizing es with
  | nil => simp [keys]
  | cons e new ih =>
    have hkeys : keys (e :: new) = e.1 :: keys new := rfl
    rw [List.foldl_cons, ih, mem_keys_insert, hkeys, List.mem_cons, ← or_assoc,
      or_comm (a := k = e.1)]

theorem mem_keys_insertNew [LawfulBEq α] {es : Entries α β} {k k' : α} {v : β} :
    k' ∈ (es.insertNew k v).keys ↔ k' ∈ es.keys ∨ k' = k := by
  rw [insertNew]
  split
  · next hk => exact ⟨.inl, fun h => h.elim id fun h => h ▸ has_eq_true_iff.1 hk⟩
  · simp [keys]

/-- Putting in what is new only makes no key double either. -/
theorem nodup_keys_insertNew [LawfulBEq α] {es : Entries α β} (h : es.keys.Nodup) (k : α) (v : β) :
    (es.insertNew k v).keys.Nodup := by
  rw [insertNew]
  split
  · exact h
  · next hk =>
    rw [has_eq_true_iff] at hk
    have hkeys : (es ++ [(k, v)]).keys = es.keys ++ [k] := by simp [keys]
    rw [hkeys, List.nodup_append]
    refine ⟨h, by simp, ?_⟩
    rintro a ha b hb rfl
    exact hk (List.mem_singleton.1 hb ▸ ha)

theorem mem_insertNew {es : Entries α β} {k : α} {v : β} {e : α × β}
    (h : e ∈ es.insertNew k v) : e ∈ es ∨ e = (k, v) := by
  rw [insertNew] at h
  split at h
  · exact .inl h
  · simpa using h

/-- What is found after putting in several is one of them, or it was there. -/
theorem get?_insertAll_eq_some [LawfulBEq α] {es : Entries α β} {new : List (α × β)} {k : α}
    {v : β} (h : (es.insertAll new).get? k = some v) : (k, v) ∈ new ∨ es.get? k = some v := by
  rw [insertAll] at h
  induction new generalizing es with
  | nil => exact .inr h
  | cons e new ih =>
    rw [List.foldl_cons] at h
    rcases ih h with hmem | hget
    · exact .inl (List.mem_cons_of_mem e hmem)
    · rw [get?_insert] at hget
      split at hget
      · next hk =>
        obtain rfl := eq_of_beq hk
        obtain rfl := Option.some.inj hget
        exact .inl List.mem_cons_self
      · exact .inr hget

/-- What a map that was written holds was written to it. -/
theorem mem_of_get?_ofList [LawfulBEq α] {new : List (α × β)} {k : α} {v : β}
    (h : (ofList new).get? k = some v) : (k, v) ∈ new :=
  (get?_insertAll_eq_some h).resolve_right (by simp)

/-- What was written to is there. -/
theorem exists_get?_ofList [LawfulBEq α] {new : List (α × β)} {k : α} {v : β}
    (h : (k, v) ∈ new) : ∃ v', (ofList new).get? k = some v' := by
  rcases hget : (ofList new).get? k with _ | v'
  · refine absurd (mem_keys_insertAll.2 (.inl ?_)) (get?_eq_none_iff.1 hget)
    exact List.mem_map.2 ⟨(k, v), h, rfl⟩
  · exact ⟨v', rfl⟩

/-- A map that was written holds each key once. -/
theorem nodup_keys_ofList [LawfulBEq α] (new : List (α × β)) : (ofList new).keys.Nodup :=
  nodup_keys_insertAll (by simp [keys]) new

end Entries

end BuildFiles
