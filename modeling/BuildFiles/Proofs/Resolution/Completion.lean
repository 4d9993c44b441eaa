import BuildFiles.Proofs.Resolution.Exploration

/-!
# What a resolution has done when it comes to an end

`Complete` is what holds of a basis and of the progress that led to it, and `complete_of_within`
says that it holds whatever was known at first and however many levels were allowed. The records of
the trace that are on the way through a library are about its dependencies one by one
(`Complete.answers_of_dependsOn`).
-/

namespace BuildFiles

namespace Resolution

/-! ## The records on the way through a library -/

/-- The last of the way is the library. -/
theorem library_eq_of_way {s t : Selection} (h : s.way = t.way) : s.library = t.library := by
  have hlast := congrArg List.getLast? h
  rw [Selection.way, Selection.way, List.getLast?_concat, List.getLast?_concat] at hlast
  exact Option.some.inj hlast

/-- The visits on the way through a library are those of its dependencies. -/
theorem filter_visits {found : List (Selection × List Dependency)}
    (hunique : (libraryNames (found.map Prod.fst)).Nodup) {t : Selection} {ds : List Dependency}
    (hf : (t, ds) ∈ found) :
    ((found.flatMap visitsOf).filter fun v => v.parent.way == t.way) = ds.map (Visit.mk t) := by
  induction found with
  | nil => cases hf
  | cons f found ih =>
    obtain ⟨hnew, hrest⟩ := List.nodup_cons.1 hunique
    rw [List.flatMap_cons, List.filter_append]
    rcases List.mem_cons.1 hf with rfl | hf
    · -- no other library has the same way, since the last of it is the library
      have hall : ((visitsOf (t, ds)).filter fun v => v.parent.way == t.way) =
          ds.map (Visit.mk t) := by
        refine List.filter_eq_self.2 fun v hv => ?_
        obtain ⟨d, -, rfl⟩ := List.mem_map.1 hv
        exact beq_self_eq_true _
      have hnone : ((found.flatMap visitsOf).filter fun v => v.parent.way == t.way) = [] := by
        refine List.filter_eq_nil_iff.2 fun v hv hway => hnew ?_
        obtain ⟨ds', hf', -⟩ := mem_flatMap_visitsOf.1 hv
        have hlib : v.parent.library = t.library := library_eq_of_way (eq_of_beq hway)
        exact List.mem_map.2 ⟨v.parent, List.mem_map.2 ⟨_, hf', rfl⟩, hlib⟩
      rw [hall, hnone, List.append_nil]
    · have hnone : ((visitsOf f).filter fun v => v.parent.way == t.way) = [] := by
        refine List.filter_eq_nil_iff.2 fun v hv hway => hnew ?_
        obtain ⟨d, -, rfl⟩ := List.mem_map.1 hv
        have hlib : f.1.library = t.library := library_eq_of_way (eq_of_beq hway)
        exact List.mem_map.2 ⟨t, List.mem_map.2 ⟨_, hf, rfl⟩, hlib.symm⟩
      rw [hnone, List.nil_append]
      exact ih hrest hf

/-! ## A whole resolution -/

/-- The libraries of the manifest are taken in by their names, and by no way. -/
theorem topSelection_spec {r : Repository} {m : Manifest} {library : String} {d : Datum}
    {s : Selection} (h : topSelection r m library d = .ok s) :
    s.library = library ∧ s.path = [] ∧
      exclusionsOf (d.entries?.getD []) = .ok s.exclusions := by
  obtain ⟨exclusions, hexclusions, h⟩ := Except.bind_eq_ok h
  split at h
  · obtain ⟨root, -, h⟩ := Except.bind_eq_ok h
    obtain ⟨archive, -, h⟩ := Except.bind_eq_ok h
    obtain ⟨there, -, h⟩ := Except.bind_eq_ok h
    split at h
    · cases h
      exact ⟨rfl, rfl, hexclusions⟩
    · cases h
  · cases h
  · obtain ⟨version, -, h⟩ := Except.bind_eq_ok h
    obtain ⟨archive, -, h⟩ := Except.bind_eq_ok h
    cases h
    exact ⟨rfl, rfl, hexclusions⟩

section Tops

variable {r : Repository} {m : Manifest} {top : Entries String Datum} {tops : List Selection}

theorem forall₂_of_topSelections (h : topSelections r m top = .ok tops) :
    List.Forall₂ (fun l s => topSelection r m l ((top.get? l).getD .nil) = .ok s)
      (Text.sorted top.keys) tops :=
  Except.forall₂_of_mapM h

theorem libraryNames_of_topSelections (h : topSelections r m top = .ok tops) :
    libraryNames tops = Text.sorted top.keys := by
  have hnames : List.Forall₂ (fun s l => s.library = l) tops (Text.sorted top.keys) :=
    ((forall₂_of_topSelections h).imp fun _ _ hs => (topSelection_spec hs).1).flip
  rw [libraryNames, ← List.forall₂_eq_eq_eq, List.forall₂_map_left_iff]
  exact hnames

theorem topSelection_of_mem (h : topSelections r m top = .ok tops) {s : Selection}
    (hs : s ∈ tops) :
    topSelection r m s.library ((top.get? s.library).getD .nil) = .ok s := by
  obtain ⟨l, -, hl⟩ := exists_left_of_forall₂ (forall₂_of_topSelections h) hs
  rw [(topSelection_spec hl).1]
  exact hl

end Tops

/-- Where a resolution starts: with the libraries of the manifest, each once. -/
theorem explored_of_topSelections {r : Repository} {m : Manifest} {aliases : List String}
    {tops : List Selection} (h : topSelections r m (m.topLevel aliases) = .ok tops)
    (known : PomCache) :
    Explored r known (m.topLevel aliases).keys tops [] 0 [] (start tops) := by
  have hnames := libraryNames_of_topSelections h
  refine .start ?_ (fun l => by rw [hnames, Text.mem_sorted]) ?_
  · rw [hnames]
    exact (Text.sorted_perm _).nodup_iff.2 (Entries.nodup_keys_ofList _)
  · exact fun t ht => (topSelection_spec (topSelection_of_mem h ht)).2.1

/-- What a resolution has done that comes to the basis by way of the progress: the libraries `tops`
of the manifest and all others were taken in, and the dependencies `found` of each were met. -/
structure Complete (r : Repository) (m : Manifest) (aliases : List String) (known : PomCache)
    (tops taken : List Selection) (found : List (Selection × List Dependency)) (s : Progress)
    (b : Basis) : Prop where
  leading : topSelections r m (m.topLevel aliases) = .ok tops
  selected : s.selected = byLibrary taken
  decided : Decided tops (found.flatMap visitsOf) taken b.trace
  all : Found r known taken found
  ordered : (b.trace.map (·.path.length)).Pairwise (· ≤ ·)
  libraries : b.libraries =
    (taken.mergeSort fun a b => decide (a.library ≤ b.library)).map fun s => (s.archive, s.library)

/-- The folders of sources are no libraries. -/
theorem library_of_sourceEntries {m : Manifest} {aliases : List String}
    {sources : List ClasspathEntry} (h : m.sourceEntries aliases = .ok sources) :
    ∀ e ∈ sources, e.library = none := by
  intro e he
  have hsources := Except.forall₂_of_mapM (l := m.keyedPaths aliases) h
  obtain ⟨⟨p, key⟩, -, hp⟩ := exists_left_of_forall₂ hsources he
  cases hpath : m.folder.resolved (.parse p) with
  | error e => simp [hpath, Except.map] at hp
  | ok path =>
    simp only [hpath, Except.map] at hp
    cases hp
    rfl

/-- A resolution that comes to an end is complete: the loop has stopped with nothing left to go
through, so all libraries that are taken in have been processed, and the basis is made of them. -/
theorem complete_of_within {r : Repository} {m : Manifest} {aliases : List String} {fuel : Nat}
    {known known' : PomCache} {s : Progress} {b : Basis}
    (h : (within r m aliases fuel).Yields known (s, b) known') :
    ∃ tops taken found, Complete r m aliases known tops taken found s b := by
  obtain ⟨sources, hsources, hrun⟩ := h.lift_bind
  obtain ⟨_, -, hrest⟩ := hrun.lift_bind
  obtain ⟨tops, htops, hfrom⟩ := hrest.lift_bind
  obtain ⟨s', mid, hlevels, hend⟩ := hfrom.bind
  obtain ⟨_, -, hpure⟩ := hend.lift_bind
  obtain ⟨hpair, rfl⟩ := hpure.pure
  obtain ⟨rfl, rfl⟩ := Prod.mk.inj hpair
  have hstart := explored_of_topSelections htops.of known
  -- nothing is left to be gone through, so all that is taken in was gone through
  obtain ⟨taken, depth, found, hexplored, hnext⟩ := hstart.levels (.refl r known) hlevels
  obtain ⟨hunderway, hall⟩ := hexplored
  have hselected := hunderway.selected
  have hdecided := hunderway.decided
  rw [hnext, List.append_nil] at hselected hdecided
  refine ⟨tops, taken, found, htops.of, hselected, hdecided, hall, hunderway.ordered, ?_⟩
  have hvalues : s.selected.values = taken := by
    rw [hselected, Entries.values, byLibrary, List.map_map]
    exact List.map_id _
  rw [Basis.libraries, List.filterMap_append, libraryEntries, hvalues, List.filterMap_map]
  have hnone : List.filterMap (fun e : ClasspathEntry => e.library.map fun l => (e.path, l))
      sources = [] := by
    rw [List.filterMap_eq_nil_iff]
    intro e he
    rw [library_of_sourceEntries hsources.of e he]
    rfl
  rw [hnone, List.nil_append]
  exact congrFun (List.filterMap_eq_map (f := fun s : Selection => (s.archive, s.library))) _

/-- The folders of sources of a basis are those of the manifest. -/
theorem sourceEntries_of_within {r : Repository} {m : Manifest} {aliases : List String}
    {fuel : Nat} {known known' : PomCache} {s : Progress} {b : Basis}
    (h : (within r m aliases fuel).Yields known (s, b) known') :
    m.sourceEntries aliases = .ok b.sourceEntries := by
  obtain ⟨sources, hsources, hrun⟩ := h.lift_bind
  obtain ⟨_, -, hrest⟩ := hrun.lift_bind
  obtain ⟨tops, -, hfrom⟩ := hrest.lift_bind
  obtain ⟨s', mid, -, hend⟩ := hfrom.bind
  obtain ⟨_, -, hpure⟩ := hend.lift_bind
  obtain ⟨hpair, -⟩ := hpure.pure
  obtain ⟨-, rfl⟩ := Prod.mk.inj hpair
  have hall : sources.filter (fun e => e.library.isNone) = sources :=
    List.filter_eq_self.2 fun e he => by rw [library_of_sourceEntries hsources.of e he]; rfl
  have hnone : (libraryEntries s'.selected).filter (fun e => e.library.isNone) = [] := by
    rw [List.filter_eq_nil_iff]
    intro e he
    obtain ⟨t, -, rfl⟩ := List.mem_map.1 he
    exact Bool.false_ne_true
  rw [hsources.of, Basis.sourceEntries, List.filter_append, hall, hnone, List.append_nil]

namespace Complete

variable {r : Repository} {m : Manifest} {aliases : List String} {known : PomCache}
  {tops taken : List Selection} {found : List (Selection × List Dependency)} {s : Progress}
  {b : Basis}

/-- The libraries of the manifest. -/
theorem mem_names_tops (h : Complete r m aliases known tops taken found s b) {l : String} :
    l ∈ libraryNames tops ↔ l ∈ (m.topLevel aliases).keys := by
  rw [libraryNames_of_topSelections h.leading, Text.mem_sorted]

/-- What the manifest writes about one of its libraries. -/
theorem exists_coordinate (h : Complete r m aliases known tops taken found s b) {t : Selection}
    (ht : t ∈ tops) :
    ∃ d, (m.topLevel aliases).get? t.library = some d ∧ t.path = [] ∧
      exclusionsOf (d.entries?.getD []) = .ok t.exclusions := by
  obtain ⟨-, hpath, hexclusions⟩ := topSelection_spec (topSelection_of_mem h.leading ht)
  rcases hd : (m.topLevel aliases).get? t.library with _ | d
  · exact absurd (h.mem_names_tops.1 (List.mem_map_of_mem ht)) (Entries.get?_eq_none_iff.1 hd)
  · rw [hd] at hexclusions
    exact ⟨d, rfl, hpath, hexclusions⟩

/-- What is selected for a library. -/
theorem get?_selected (h : Complete r m aliases known tops taken found s b) {l : String}
    {t : Selection} : s.selected.get? l = some t ↔ t ∈ taken ∧ t.library = l := by
  rw [h.selected]
  exact get?_byLibrary h.decided.unique

theorem perm_libraries (h : Complete r m aliases known tops taken found s b) :
    b.libraries.Perm (s.selected.values.map fun t => (t.archive, t.library)) := by
  have hvalues : s.selected.values = taken := by
    rw [h.selected, Entries.values, byLibrary, List.map_map]
    exact List.map_id _
  rw [h.libraries, hvalues]
  exact (List.mergeSort_perm _ _).map _

/-- The libraries of the classpath are those that are selected. -/
theorem mem_libraries (h : Complete r m aliases known tops taken found s b) {archive : Path}
    {l : String} :
    (archive, l) ∈ b.libraries ↔ ∃ t, s.selected.get? l = some t ∧ t.archive = archive := by
  rw [h.libraries, List.mem_map]
  simp only [List.mem_mergeSort, Prod.mk.injEq, h.get?_selected]
  constructor
  · rintro ⟨t, ht, ha, hl⟩
    exact ⟨t, ⟨ht, hl⟩, ha⟩
  · rintro ⟨t, ⟨ht, hl⟩, ha⟩
    exact ⟨t, ht, ha, hl⟩

theorem mem_names (h : Complete r m aliases known tops taken found s b) {l : String} :
    l ∈ b.libraries.map Prod.snd ↔ l ∈ libraryNames taken := by
  rw [h.libraries, List.map_map, libraryNames]
  simp only [List.mem_map, List.mem_mergeSort, Function.comp_apply]

/-- The dependencies of what has a version were looked up. -/
theorem exists_found (h : Complete r m aliases known tops taken found s b) {t : Selection}
    (ht : t ∈ taken) (hversion : t.version.isSome) :
    ∃ ds, (t, ds) ∈ found ∧ t.DependsOn r known ds := by
  have hmem : t ∈ found.map Prod.fst := by
    rw [h.all.parents]
    exact List.mem_filter.2 ⟨ht, hversion⟩
  obtain ⟨⟨t, ds⟩, hf, rfl⟩ := List.mem_map.1 hmem
  exact ⟨ds, hf, h.all.follows _ hf⟩

/-- The records on the way through a library answer the visits to its dependencies in turn. -/
theorem filter_trace (h : Complete r m aliases known tops taken found s b) {t : Selection}
    {ds : List Dependency} (hf : (t, ds) ∈ found) :
    List.Forall₂ (fun d x => Answers (libraryNames tops) taken ⟨t, d⟩ x) ds
      (b.trace.filter fun x => x.path == t.way) := by
  obtain ⟨answers, htrace, hanswers⟩ := h.decided.answers
  have htops : ((tops.map topRecord).filter fun x => x.path == t.way) = [] := by
    refine List.filter_eq_nil_iff.2 fun x hx hway => ?_
    obtain ⟨s, -, rfl⟩ := List.mem_map.1 hx
    have hnil : [] = t.way := eq_of_beq hway
    simp [Selection.way] at hnil
  have hunique : (libraryNames (found.map Prod.fst)).Nodup := by
    rw [h.all.parents]
    exact h.decided.unique.sublist (List.filter_sublist.map _)
  have hfilter : List.Forall₂ (Answers (libraryNames tops) taken)
      ((found.flatMap visitsOf).filter fun v => v.parent.way == t.way)
      (answers.filter fun x => x.path == t.way) := by
    refine List.rel_filter (fun {v x} hanswer => ?_) hanswers
    simp only [beq_iff_eq, hanswer.path_eq]
  rw [filter_visits hunique hf, List.forall₂_map_left_iff] at hfilter
  rw [htrace, List.filter_append, htops, List.nil_append]
  exact hfilter

/-- The dependencies of what is taken in were met in their order. -/
theorem answers_of_dependsOn (h : Complete r m aliases known tops taken found s b) {t : Selection}
    (ht : t ∈ taken) {ds : List Dependency} (hds : t.DependsOn r known ds) :
    List.Forall₂ (fun d x => Answers (libraryNames tops) taken ⟨t, d⟩ x) ds
      (b.trace.filter fun x => x.path == t.way) := by
  obtain ⟨version, hversion, -⟩ := id hds
  obtain ⟨ds', hf, hds'⟩ := h.exists_found ht (by rw [hversion]; rfl)
  obtain rfl := hds.unique hds'
  exact h.filter_trace hf

/-- Each dependency of what is taken in was met, and the trace answers it. -/
theorem exists_record (h : Complete r m aliases known tops taken found s b) {t : Selection}
    (ht : t ∈ taken) {ds : List Dependency} (hds : t.DependsOn r known ds) {d : Dependency}
    (hd : d ∈ ds) : ∃ x ∈ b.trace, Answers (libraryNames tops) taken ⟨t, d⟩ x := by
  obtain ⟨x, hx, hanswer⟩ := exists_right_of_forall₂ (h.answers_of_dependsOn ht hds) hd
  exact ⟨x, (List.mem_filter.1 hx).1, hanswer⟩

/-- The way through a library starts in the manifest. -/
theorem head?_way (h : Complete r m aliases known tops taken found s b) :
    ∀ t ∈ taken, ∃ p ∈ libraryNames tops, t.way.head? = some p := by
  refine h.decided.induction ?_ ?_
  · intro t ht
    obtain ⟨d, -, hpath, -⟩ := h.exists_coordinate ht
    rw [Selection.way, hpath]
    exact ⟨t.library, List.mem_map_of_mem ht, rfl⟩
  · rintro v hv archive - - ⟨p, hp, hhead⟩
    rw [v.way_taken, List.head?_append, hhead]
    exact ⟨p, hp, rfl⟩

end Complete

/-! ## A small resolution

A library of the manifest excludes another, and is a dependency of its own dependency. -/

/-- A plain mention of a library of the group `g` in the given version. -/
def smallMention (artifact version : String) : Mention :=
  ⟨"g", artifact, version, "compile", false, "jar", "", []⟩

/-- Descriptions of three libraries. -/
def smallKnown : PomCache := [
  (⟨"g", "a", "1"⟩, some { mentions := [smallMention "b" "1", smallMention "x" "1"] }),
  (⟨"g", "b", "1"⟩, some { mentions :=
    [smallMention "a" "2", smallMention "x" "1", smallMention "c" "1", smallMention "c" "2"] }),
  (⟨"g", "c", "1"⟩, some { mentions := [smallMention "b" "1"] })]

/-- A repository with the archives of three libraries. -/
def smallRepository : Repository where
  tree := { files := [
    (["r", "g", "a", "1", "a-1.jar"], .empty),
    (["r", "g", "b", "1", "b-1.jar"], .empty),
    (["r", "g", "c", "1", "c-1.jar"], .empty)] }
  path := .parse "/r"

/-- A manifest that names one library. -/
def smallManifest : Manifest where
  path := .parse "/w/deps.edn"
  deps := [("g/a", .map [
    (.str "mvn/version", .str "1"),
    (.str "exclusions", .vector [.str "g/x"])])]

/-- The trace of the resolution of the manifest. -/
def smallTrace : List TraceRecord := [
  ⟨[], "g/a", "new-top-dep"⟩,
  ⟨["g/a"], "g/b", "new-dep"⟩,
  ⟨["g/a"], "g/x", "excluded"⟩,
  ⟨["g/a", "g/b"], "g/a", "use-top"⟩,
  ⟨["g/a", "g/b"], "g/x", "excluded"⟩,
  ⟨["g/a", "g/b"], "g/c", "new-dep"⟩,
  ⟨["g/a", "g/b"], "g/c", "version-conflict"⟩,
  ⟨["g/a", "g/b", "g/c"], "g/b", "same-version"⟩]

theorem exists_smallResolution : ∃ s b known',
    (within smallRepository smallManifest [] 3).Yields smallKnown (s, b) known' ∧
      b.trace = smallTrace := by
  obtain ⟨⟨s, b⟩, known', hrun, htrace⟩ := Resolving.exists_yields
    (within smallRepository smallManifest [] 3) smallKnown (fun p => p.2.trace == smallTrace)
    (by decide +kernel)
  exact ⟨s, b, known', hrun, eq_of_beq htrace⟩

end Resolution

end BuildFiles
