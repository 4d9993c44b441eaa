import BuildFiles.Proofs.Resolution.Completion
import Mathlib.Data.List.Chain

/-!
# The libraries of a resolution are closed under dependencies

Nothing is lost and nothing is made up: each dependency of a library that is taken in is taken in as
well unless the way to it excludes it, and each library that is taken in is one of the manifest or
is reached from there along dependencies (`closed_of_within`).
-/

namespace BuildFiles

namespace Resolution

/-- The version that is selected for the library `p` depends on the library `q`. -/
def LeadsTo (r : Repository) (known : PomCache) (selected : Entries String Selection)
    (p q : String) : Prop :=
  ∃ t ds, selected.get? p = some t ∧ t.DependsOn r known ds ∧ ∃ d ∈ ds, d.library = q

namespace Complete

variable {r : Repository} {m : Manifest} {aliases : List String} {known : PomCache}
  {tops taken : List Selection} {found : List (Selection × List Dependency)} {s : Progress}
  {b : Basis}

/-- A dependency that is met is excluded by its parent, or taken in. -/
theorem excluded_or_taken (h : Complete r m aliases known tops taken found s b) {t : Selection}
    (ht : t ∈ taken) {ds : List Dependency} (hds : t.DependsOn r known ds) {d : Dependency}
    (hd : d ∈ ds) :
    (∃ x ∈ b.trace, x.reason = "excluded" ∧ x.library = d.library ∧ x.parent? = some t.library) ∨
      d.library ∈ b.libraries.map Prod.snd := by
  obtain ⟨x, hx, hanswer⟩ := h.exists_record ht hds hd
  by_cases htaken : d.library ∈ libraryNames taken
  · exact .inr (h.mem_names.2 htaken)
  · refine .inl ⟨x, hx, h.decided.unmet x hx ?_, hanswer.library_eq, ?_⟩
    · rw [hanswer.library_eq]
      exact htaken
    · rw [TraceRecord.parent?, hanswer.path_eq, Selection.way, List.getLast?_concat]

/-- What a visit takes in is a dependency of its parent. -/
theorem leadsTo_of_visit (h : Complete r m aliases known tops taken found s b) {v : Visit}
    (hv : v ∈ found.flatMap visitsOf) :
    LeadsTo r known s.selected v.parent.library v.dependency.library := by
  obtain ⟨ds, hf, hd⟩ := mem_flatMap_visitsOf.1 hv
  have hselected : s.selected.get? v.parent.library = some v.parent :=
    h.get?_selected.2 ⟨h.decided.parents v hv, rfl⟩
  exact ⟨v.parent, ds, hselected, h.all.follows _ hf, v.dependency, hd, rfl⟩

/-- The way through a library goes along dependencies. -/
theorem isChain_way (h : Complete r m aliases known tops taken found s b) :
    ∀ t ∈ taken, t.way.IsChain (LeadsTo r known s.selected) := by
  refine h.decided.induction ?_ ?_
  · intro t ht
    obtain ⟨d, -, hpath, -⟩ := h.exists_coordinate ht
    rw [Selection.way, hpath]
    exact List.isChain_singleton _
  · intro v hv archive _ _ hchain
    rw [v.way_taken]
    refine List.isChain_append.2 ⟨hchain, List.isChain_singleton _, ?_⟩
    intro q hq l hl
    rw [Selection.way, List.getLast?_concat, Option.mem_some_iff] at hq
    rw [List.head?_cons, Option.mem_some_iff] at hl
    rw [← hq, ← hl]
    exact h.leadsTo_of_visit hv

/-- A library that is taken in is one of the manifest, or a record says along which dependencies it
was reached. -/
theorem exists_provenance (h : Complete r m aliases known tops taken found s b) {l : String}
    (hl : l ∈ b.libraries.map Prod.snd) :
    l ∈ (m.topLevel aliases).keys ∨ ∃ x ∈ b.trace, x.reason = "new-dep" ∧ x.library = l ∧
      (∃ p ∈ (m.topLevel aliases).keys, x.path.head? = some p) ∧
      (x.path ++ [l]).IsChain (LeadsTo r known s.selected) := by
  obtain ⟨t, ht, rfl⟩ := List.mem_map.1 (h.mem_names.1 hl)
  rcases Classical.em (t.library ∈ libraryNames tops) with htop | hnot
  · exact .inl (h.mem_names_tops.1 htop)
  · right
    have hrecord := (h.decided.newRecords t ht hnot).mem
    refine ⟨newRecord t, hrecord, rfl, rfl, ?_, h.isChain_way t ht⟩
    obtain ⟨v, hv, archive, rfl⟩ := h.decided.exists_source ht hnot
    obtain ⟨p, hp, hhead⟩ := h.head?_way v.parent (h.decided.parents v hv)
    exact ⟨p, h.mem_names_tops.1 hp, hhead⟩

end Complete

/-- The libraries of the classpath are those that are selected. What a selected version depends on
is excluded or is on the classpath too, and whatever is on the classpath is of the manifest or is
reached from there, each library on the way depending on the next by the version that is selected
for it. -/
theorem closed_of_within {r : Repository} {m : Manifest} {aliases : List String} {fuel : Nat}
    {known known' : PomCache} {s : Progress} {b : Basis}
    (h : (within r m aliases fuel).Yields known (s, b) known') :
    (∀ archive l, (archive, l) ∈ b.libraries ↔
      ∃ t, s.selected.get? l = some t ∧ t.archive = archive) ∧
    (∀ l t, s.selected.get? l = some t → t.version.isSome →
      ∃ ds, t.DependsOn r known ds ∧ ∀ d ∈ ds,
        (∃ x ∈ b.trace, x.reason = "excluded" ∧ x.library = d.library ∧ x.parent? = some l) ∨
          d.library ∈ b.libraries.map Prod.snd) ∧
    (∀ l ∈ b.libraries.map Prod.snd,
      l ∈ (m.topLevel aliases).keys ∨ ∃ x ∈ b.trace, x.reason = "new-dep" ∧ x.library = l ∧
        (∃ p ∈ (m.topLevel aliases).keys, x.path.head? = some p) ∧
        (x.path ++ [l]).IsChain (LeadsTo r known s.selected)) := by
  obtain ⟨tops, taken, found, hcomplete⟩ := complete_of_within h
  refine ⟨fun archive l => hcomplete.mem_libraries, ?_, fun l hl => hcomplete.exists_provenance hl⟩
  intro l t hselected hversion
  obtain ⟨ht, rfl⟩ := hcomplete.get?_selected.1 hselected
  obtain ⟨ds, -, hds⟩ := hcomplete.exists_found ht hversion
  exact ⟨ds, hds, fun d hd => hcomplete.excluded_or_taken ht hds hd⟩

/-- The way to `g/c` leads along dependencies. -/
theorem closed_of_smallResolution : ∃ s b known',
    (within smallRepository smallManifest [] 3).Yields smallKnown (s, b) known' ∧
      ∀ l ∈ b.libraries.map Prod.snd, l ∈ (smallManifest.topLevel []).keys ∨
        ∃ x ∈ smallTrace, x.reason = "new-dep" ∧ x.library = l ∧
          (∃ p ∈ (smallManifest.topLevel []).keys, x.path.head? = some p) ∧
          (x.path ++ [l]).IsChain (LeadsTo smallRepository smallKnown s.selected) := by
  obtain ⟨s, b, known', hrun, htrace⟩ := exists_smallResolution
  refine ⟨s, b, known', hrun, ?_⟩
  have hclosed := (closed_of_within hrun).2.2
  rwa [htrace] at hclosed

end Resolution

end BuildFiles
