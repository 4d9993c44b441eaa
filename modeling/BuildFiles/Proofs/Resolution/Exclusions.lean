import BuildFiles.Proofs.Resolution.Completion

/-!
# Exclusions along the way

A library that is taken in inherits the exclusions of all that is on the way to it. `Applies` are
the sets of exclusions that apply on a way, as the manifest and the descriptions write them;
`mem_exclusions_iff` says that what is kept with a library is their union, and
`exclusionsInherited_of_within` that it decides what is excluded.
-/

namespace BuildFiles

namespace Resolution

/-- The version that is selected takes in a library by this dependency: of all its dependencies,
whose records the trace holds in their order, this is one whose record says so. -/
def Introduces (r : Repository) (known : PomCache) (trace : List TraceRecord) (t : Selection)
    (d : Dependency) : Prop :=
  ∃ ds, t.DependsOn r known ds ∧
    (d, ⟨t.way, d.library, "new-dep"⟩) ∈ ds.zip (trace.filter fun x => x.path == t.way)

/-- The sets of exclusions that apply on a way. -/
inductive Applies (r : Repository) (m : Manifest) (aliases : List String) (known : PomCache)
    (s : Progress) (b : Basis) (way : List String) : List String → Prop
  /-- those that the manifest writes at the first library -/
  | manifest {p : String} {d : Datum} {xs : List String} (hhead : way.head? = some p)
    (hd : (m.topLevel aliases).get? p = some d)
    (hxs : exclusionsOf (d.entries?.getD []) = .ok xs) : Applies r m aliases known s b way xs
  /-- those that the dependency has by which a library introduces the next one -/
  | introduced (before after : List String) {p q : String} {t : Selection} {d : Dependency}
    (hway : way = before ++ p :: q :: after) (ht : s.selected.get? p = some t)
    (hd : Introduces r known b.trace t d) (hq : d.library = q) :
    Applies r m aliases known s b way d.exclusions

/-- How exclusions decide what is taken in. -/
structure ExclusionsInherited (r : Repository) (m : Manifest) (aliases : List String)
    (known : PomCache) (s : Progress) (b : Basis) : Prop where
  /-- the way of a record that takes a library in starts in the manifest -/
  leading : ∀ x ∈ b.trace, x.reason = "new-dep" → ∃ p d xs, x.path.head? = some p ∧
    (m.topLevel aliases).get? p = some d ∧ exclusionsOf (d.entries?.getD []) = .ok xs
  /-- on it each library introduces the next one -/
  introduced : ∀ x ∈ b.trace, x.reason = "new-dep" → ∀ before p q after,
    x.path ++ [x.library] = before ++ p :: q :: after →
    ∃ t d, s.selected.get? p = some t ∧ Introduces r known b.trace t d ∧ d.library = q
  /-- and no library is excluded by what is before it -/
  kept : ∀ x ∈ b.trace, x.reason = "new-dep" → ∀ before l after,
    x.path ++ [x.library] = before ++ l :: after → before ≠ [] →
    ∀ xs, Applies r m aliases known s b before xs → l ∉ xs
  /-- a dependency that the way to it excludes is recorded so, and is not taken in by that way -/
  excluded : ∀ p t ds d xs, s.selected.get? p = some t → t.DependsOn r known ds → d ∈ ds →
    Applies r m aliases known s b t.way xs → d.library ∈ xs →
    ⟨t.way, d.library, "excluded"⟩ ∈ b.trace ∧
      (∀ x ∈ b.trace, x.path = t.way → x.library = d.library → x.reason = "excluded") ∧
      ∀ t', s.selected.get? d.library = some t' → t'.path ≠ t.way

/-! ## Splitting a way -/

/-- The last library of a way is split off, or it is among those after the split. -/
theorem split_concat {way before after : List String} {l q : String}
    (h : way ++ [l] = before ++ q :: after) :
    (way = before ∧ l = q) ∨ ∃ after', way = before ++ q :: after' := by
  rcases List.eq_nil_or_concat after with rfl | ⟨after', z, rfl⟩
  · obtain ⟨hway, hl⟩ := List.append_inj' h rfl
    exact .inl ⟨hway, List.singleton_inj.1 hl⟩
  · rw [List.concat_eq_append, ← List.cons_append, ← List.append_assoc] at h
    exact .inr ⟨after', (List.append_inj' h rfl).1⟩

/-- The last library of a way is the second of two that are split off, or both are before it. -/
theorem split_pair {way before after : List String} {l p q : String}
    (h : way ++ [l] = before ++ p :: q :: after) :
    (way.getLast? = some p ∧ l = q) ∨ ∃ after', way = before ++ p :: q :: after' := by
  have hsplit : way ++ [l] = (before ++ [p]) ++ q :: after := by
    rw [h, List.append_assoc]
    rfl
  rcases split_concat hsplit with ⟨rfl, hl⟩ | ⟨after', hway⟩
  · exact .inl ⟨List.getLast?_concat, hl⟩
  · refine .inr ⟨after', ?_⟩
    rw [hway, List.append_assoc]
    rfl

namespace Applies

variable {r : Repository} {m : Manifest} {aliases : List String} {known : PomCache}
  {s : Progress} {b : Basis} {way xs : List String} {l : String}

/-- On the way that is one library of the manifest its exclusions apply. -/
theorem singleton_iff : Applies r m aliases known s b [l] xs ↔
    ∃ d, (m.topLevel aliases).get? l = some d ∧ exclusionsOf (d.entries?.getD []) = .ok xs := by
  constructor
  · intro h
    cases h with
    | manifest hhead hd hxs =>
      obtain rfl := Option.some.inj hhead
      exact ⟨_, hd, hxs⟩
    | introduced before after hway =>
      have hlength := congrArg List.length hway
      simp only [List.length_append, List.length_cons, List.length_nil] at hlength
      omega
  · rintro ⟨d, hd, hxs⟩
    exact .manifest rfl hd hxs

/-- When the way goes on, those of the dependency that leads on apply as well. -/
theorem concat_iff (hway : way ≠ []) : Applies r m aliases known s b (way ++ [l]) xs ↔
    Applies r m aliases known s b way xs ∨ ∃ p t d, way.getLast? = some p ∧
      s.selected.get? p = some t ∧ Introduces r known b.trace t d ∧ d.library = l ∧
      d.exclusions = xs := by
  have hhead : (way ++ [l]).head? = way.head? := List.head?_append_of_ne_nil way hway
  constructor
  · intro h
    cases h with
    | manifest hp hd hxs => exact .inl (.manifest (hhead ▸ hp) hd hxs)
    | introduced before after hsplit ht hd hq =>
      rcases split_pair hsplit with ⟨hlast, rfl⟩ | ⟨after', hbefore⟩
      · exact .inr ⟨_, _, _, hlast, ht, hd, hq, rfl⟩
      · exact .inl (.introduced before after' hbefore ht hd hq)
  · rintro (h | ⟨p, t, d, hp, ht, hd, hq, rfl⟩)
    · cases h with
      | manifest hp hd hxs => exact .manifest (hhead.trans hp) hd hxs
      | introduced before after hsplit ht hd hq =>
        refine .introduced before (after ++ [l]) ?_ ht hd hq
        rw [hsplit, List.append_assoc]
        rfl
    · obtain ⟨before, rfl⟩ := List.getLast?_eq_some_iff.1 hp
      refine .introduced before [] ?_ ht hd hq
      rw [List.append_assoc]
      rfl

end Applies

namespace Complete

variable {r : Repository} {m : Manifest} {aliases : List String} {known : PomCache}
  {tops taken : List Selection} {found : List (Selection × List Dependency)} {s : Progress}
  {b : Basis}

/-- A dependency that introduces a library is what takes it in. -/
theorem exists_taken_of_introduces (h : Complete r m aliases known tops taken found s b)
    {t : Selection} (ht : t ∈ taken) {d : Dependency} (hd : Introduces r known b.trace t d) :
    ∃ archive, (Visit.mk t d).taken archive ∈ taken := by
  obtain ⟨ds, hds, hzip⟩ := hd
  exact ((List.forall₂_zip (h.answers_of_dependsOn ht hds) hzip).exists_taken rfl).2

/-- What holds of the libraries of the manifest, and of what a library introduces if it holds of
that library, holds of all that is taken in. -/
theorem induction (h : Complete r m aliases known tops taken found s b) {P : Selection → Prop}
    (leading : ∀ t ∈ tops, P t)
    (introduced : ∀ t ∈ taken, ∀ d archive, Introduces r known b.trace t d →
      d.library ∉ t.exclusions → (Visit.mk t d).taken archive ∈ taken → P t →
      P ((Visit.mk t d).taken archive)) :
    ∀ t ∈ taken, P t := by
  refine h.decided.induction leading ?_
  intro v hv archive hthere hnot hparent
  have ht : v.parent ∈ taken := h.decided.parents v hv
  obtain ⟨ds, hf, -⟩ := mem_flatMap_visitsOf.1 hv
  have hrecord : newRecord (v.taken archive) ∈ b.trace.filter fun x => x.path == v.parent.way :=
    List.mem_filter.2 ⟨(h.decided.newRecords _ hthere hnot).mem, beq_self_eq_true v.parent.way⟩
  -- the dependency may be another one than that of the visit, but it takes the same library in
  obtain ⟨d, hzip, hanswer⟩ := exists_zip_of_forall₂ (h.filter_trace hf) hrecord
  obtain ⟨hin, archive', hthere'⟩ := hanswer.exists_taken rfl
  rw [eq_of_library_eq h.decided.unique hthere hthere' hanswer.library_eq]
  refine introduced v.parent ht d archive' ⟨ds, h.all.follows _ hf, ?_⟩ hin hthere' hparent
  have hlib : v.dependency.library = d.library := hanswer.library_eq
  rw [← hlib]
  exact hzip

/-- What is kept with a library are the exclusions that apply on the way through it. -/
theorem mem_exclusions_iff (h : Complete r m aliases known tops taken found s b) :
    ∀ t ∈ taken, ∀ x, x ∈ t.exclusions ↔ ∃ xs, Applies r m aliases known s b t.way xs ∧ x ∈ xs := by
  refine h.induction ?_ ?_
  · intro t ht x
    obtain ⟨d, hd, hpath, hexclusions⟩ := h.exists_coordinate ht
    have hway : t.way = [t.library] := by rw [Selection.way, hpath, List.nil_append]
    rw [hway]
    constructor
    · exact fun hx => ⟨t.exclusions, Applies.singleton_iff.2 ⟨d, hd, hexclusions⟩, hx⟩
    · rintro ⟨xs, happlies, hx⟩
      obtain ⟨d', hd', hxs⟩ := Applies.singleton_iff.1 happlies
      obtain rfl := Option.some.inj (hd.symm.trans hd')
      obtain rfl := Except.ok.inj (hexclusions.symm.trans hxs)
      exact hx
  · intro t ht d archive hd hin hthere ih x
    have hlast : t.way.getLast? = some t.library := List.getLast?_concat
    have hne : t.way ≠ [] := List.append_ne_nil_of_right_ne_nil _ (List.cons_ne_nil _ _)
    have hselected : s.selected.get? t.library = some t := h.get?_selected.2 ⟨ht, rfl⟩
    have hmem : x ∈ ((Visit.mk t d).taken archive).exclusions ↔
        x ∈ t.exclusions ∨ x ∈ d.exclusions := by
      rw [Visit.taken, List.mem_eraseDups, List.mem_append]
    simp only [hmem, Visit.way_taken, Applies.concat_iff hne]
    constructor
    · rintro (hx | hx)
      · obtain ⟨xs, happlies, hxs⟩ := (ih x).1 hx
        exact ⟨xs, .inl happlies, hxs⟩
      · exact ⟨_, .inr ⟨_, t, d, hlast, hselected, hd, rfl, rfl⟩, hx⟩
    · rintro ⟨xs, happlies | ⟨p, t', d', hp, ht', hd', hlib, rfl⟩, hx⟩
      · exact .inl ((ih x).2 ⟨xs, happlies, hx⟩)
      · obtain rfl := Option.some.inj (hlast.symm.trans hp)
        obtain rfl := Option.some.inj (hselected.symm.trans ht')
        -- two dependencies that introduce the library make one selection of it
        obtain ⟨archive', hthere'⟩ := h.exists_taken_of_introduces ht hd'
        have hsame := eq_of_library_eq h.decided.unique hthere hthere' hlib.symm
        refine hmem.1 ?_
        rw [hsame, Visit.taken, List.mem_eraseDups]
        exact List.mem_append_right _ hx

/-- Each library on a way introduces the next one. -/
theorem introduced_of_way (h : Complete r m aliases known tops taken found s b) :
    ∀ t ∈ taken, ∀ before p q after, t.way = before ++ p :: q :: after →
      ∃ t' d, s.selected.get? p = some t' ∧ Introduces r known b.trace t' d ∧ d.library = q := by
  refine h.induction ?_ ?_
  · intro t ht before p q after hsplit
    obtain ⟨d, -, hpath, -⟩ := h.exists_coordinate ht
    rw [Selection.way, hpath] at hsplit
    have hlength := congrArg List.length hsplit
    simp only [List.length_append, List.length_cons, List.length_nil] at hlength
    omega
  · intro t ht d archive hd hin hthere ih before p q after hsplit
    rw [Visit.way_taken] at hsplit
    rcases split_pair hsplit with ⟨hlast, rfl⟩ | ⟨after', hway⟩
    · rw [Selection.way, List.getLast?_concat, Option.some.injEq] at hlast
      exact ⟨t, d, h.get?_selected.2 ⟨ht, hlast⟩, hd, rfl⟩
    · exact ih before p q after' hway

/-- No library on a way is excluded by what is before it. -/
theorem kept_of_way (h : Complete r m aliases known tops taken found s b) :
    ∀ t ∈ taken, ∀ before l after, t.way = before ++ l :: after → before ≠ [] →
      ∀ xs, Applies r m aliases known s b before xs → l ∉ xs := by
  refine h.induction ?_ ?_
  · intro t ht before l after hsplit hne
    obtain ⟨d, -, hpath, -⟩ := h.exists_coordinate ht
    rw [Selection.way, hpath] at hsplit
    have hlength := congrArg List.length hsplit
    have hpos := List.length_pos_iff.2 hne
    simp only [List.length_append, List.length_cons, List.length_nil] at hlength
    omega
  · intro t ht d archive hd hin hthere ih before l after hsplit hne xs happlies hl
    rw [Visit.way_taken] at hsplit
    rcases split_concat hsplit with ⟨rfl, rfl⟩ | ⟨after', hway⟩
    · exact hin ((h.mem_exclusions_iff t ht _).2 ⟨xs, happlies, hl⟩)
    · exact ih before l after' hway hne xs happlies hl

/-- The path of a record that takes a library in is the way through one that is taken in, and goes
on to the way through the library. -/
theorem exists_taken_of_record (h : Complete r m aliases known tops taken found s b)
    {x : TraceRecord} (hx : x ∈ b.trace) (hreason : x.reason = "new-dep") :
    (∃ t ∈ taken, x.path = t.way) ∧ ∃ t ∈ taken, x.path ++ [x.library] = t.way := by
  obtain ⟨answers, htrace, hanswers⟩ := h.decided.answers
  rw [htrace] at hx
  rcases List.mem_append.1 hx with hx | hx
  · obtain ⟨t, -, rfl⟩ := List.mem_map.1 hx
    exact absurd hreason (by simp [topRecord])
  · obtain ⟨v, hv, hanswer⟩ := exists_left_of_forall₂ hanswers hx
    obtain ⟨-, archive, hthere⟩ := hanswer.exists_taken hreason
    refine ⟨⟨v.parent, h.decided.parents v hv, hanswer.path_eq⟩, _, hthere, ?_⟩
    rw [hanswer.path_eq, hanswer.library_eq]
    rfl

/-- What the way to a dependency excludes is recorded as excluded, and no otherwise. -/
theorem excluded_of_applies (h : Complete r m aliases known tops taken found s b) {t : Selection}
    (ht : t ∈ taken) {ds : List Dependency} (hds : t.DependsOn r known ds) {d : Dependency}
    (hd : d ∈ ds) {xs : List String} (happlies : Applies r m aliases known s b t.way xs)
    (hxs : d.library ∈ xs) :
    ⟨t.way, d.library, "excluded"⟩ ∈ b.trace ∧
      ∀ x ∈ b.trace, x.path = t.way → x.library = d.library → x.reason = "excluded" := by
  have hout : d.library ∈ t.exclusions := (h.mem_exclusions_iff t ht _).2 ⟨xs, happlies, hxs⟩
  constructor
  · obtain ⟨x, hx, hanswer⟩ := h.exists_record ht hds hd
    obtain ⟨path, library, reason⟩ := x
    obtain rfl : path = t.way := hanswer.path_eq
    obtain rfl : library = d.library := hanswer.library_eq
    obtain rfl : reason = "excluded" := hanswer.reason_eq_excluded_iff.2 hout
    exact hx
  · intro x hx hpath hlib
    have hmem : x ∈ b.trace.filter fun x => x.path == t.way :=
      List.mem_filter.2 ⟨hx, beq_iff_eq.2 hpath⟩
    obtain ⟨d', -, hanswer⟩ := exists_left_of_forall₂ (h.answers_of_dependsOn ht hds) hmem
    refine hanswer.reason_eq_excluded_iff.2 ?_
    have hlib' : d'.library = d.library := hanswer.library_eq.symm.trans hlib
    rw [← hlib'] at hout
    exact hout

/-- A library is not taken in by a way that excludes it. -/
theorem path_ne_of_excluded (h : Complete r m aliases known tops taken found s b) {t t' : Selection}
    (ht' : t' ∈ taken)
    (hexcluded : ∀ x ∈ b.trace, x.path = t.way → x.library = t'.library → x.reason = "excluded") :
    t'.path ≠ t.way := by
  intro hpath
  by_cases htop : t'.library ∈ libraryNames tops
  · obtain ⟨u, hu, hlib⟩ := List.mem_map.1 htop
    obtain rfl := eq_of_library_eq h.decided.unique (h.decided.leading.subset hu) ht' hlib
    obtain ⟨d, -, hnil, -⟩ := h.exists_coordinate hu
    rw [hnil, Selection.way] at hpath
    exact List.append_ne_nil_of_right_ne_nil _ (List.cons_ne_nil _ _) hpath.symm
  · have hrecord := (h.decided.newRecords t' ht' htop).mem
    exact absurd (hexcluded _ hrecord hpath rfl) (by simp [newRecord])

end Complete

/-- In every resolution that comes to an end exclusions are inherited along the whole way. -/
theorem exclusionsInherited_of_within {r : Repository} {m : Manifest} {aliases : List String}
    {fuel : Nat} {known known' : PomCache} {s : Progress} {b : Basis}
    (h : (within r m aliases fuel).Yields known (s, b) known') :
    ExclusionsInherited r m aliases known s b := by
  obtain ⟨tops, taken, found, hcomplete⟩ := complete_of_within h
  constructor
  · intro x hx hreason
    obtain ⟨⟨t, ht, hpath⟩, -⟩ := hcomplete.exists_taken_of_record hx hreason
    obtain ⟨p, hp, hhead⟩ := hcomplete.head?_way t ht
    obtain ⟨top, htop, rfl⟩ := List.mem_map.1 hp
    obtain ⟨d, hd, -, hexclusions⟩ := hcomplete.exists_coordinate htop
    exact ⟨top.library, d, top.exclusions, hpath ▸ hhead, hd, hexclusions⟩
  · intro x hx hreason before p q after hsplit
    obtain ⟨-, t, ht, hway⟩ := hcomplete.exists_taken_of_record hx hreason
    exact hcomplete.introduced_of_way t ht before p q after (hway.symm.trans hsplit)
  · intro x hx hreason before l after hsplit hne xs happlies
    obtain ⟨-, t, ht, hway⟩ := hcomplete.exists_taken_of_record hx hreason
    exact hcomplete.kept_of_way t ht before l after (hway.symm.trans hsplit) hne xs happlies
  · intro p t ds d xs hselected hds hd happlies hxs
    obtain ⟨ht, -⟩ := hcomplete.get?_selected.1 hselected
    obtain ⟨hthere, hall⟩ := hcomplete.excluded_of_applies ht hds hd happlies hxs
    refine ⟨hthere, hall, fun t' hselected' => ?_⟩
    obtain ⟨ht', hlib⟩ := hcomplete.get?_selected.1 hselected'
    exact hcomplete.path_ne_of_excluded ht' (hlib ▸ hall)

/-- The manifest excludes `g/x`, also from the dependencies of `g/b`. -/
theorem exclusionsInherited_of_smallResolution : ∃ s b known',
    (within smallRepository smallManifest [] 3).Yields smallKnown (s, b) known' ∧
      b.trace = smallTrace ∧
      ExclusionsInherited smallRepository smallManifest [] smallKnown s b := by
  obtain ⟨s, b, known', hrun, htrace⟩ := exists_smallResolution
  exact ⟨s, b, known', hrun, htrace, exclusionsInherited_of_within hrun⟩

end Resolution

end BuildFiles
