import BuildFiles.Proofs.Resolution.Completion

/-!
# Which version of a library is taken

The nearest mention of a library wins, and the first of those that are equally near. The coordinate
of the manifest wins over all mentions. `VersionsSettled` says so about the whole trace of a
resolution, and `versionsSettled_of_within` that every resolution settles the versions in this way.
-/

namespace BuildFiles

/-- The reasons of records that say that a library is taken in. -/
def selectingReasons : List String := ["new-top-dep", "new-dep"]

/-- The record says that its library is taken in. -/
def TraceRecord.selects (x : TraceRecord) : Bool := selectingReasons.contains x.reason

namespace Resolution

/-- What the record of a dependency says about the version that is wanted. -/
structure Compares (selected : Entries String Selection) (d : Dependency) (x : TraceRecord) :
    Prop where
  library : x.library = d.library
  /-- the first version is the selected one -/
  first : x.reason = "new-dep" →
    ∃ t, selected.get? d.library = some t ∧ t.version = some d.version
  /-- any later one is the same or not -/
  later : x.reason = "same-version" ∨ x.reason = "version-conflict" →
    ∃ t, selected.get? d.library = some t ∧
      (x.reason = "same-version" ↔ t.version = some d.version)

/-- How the versions of all libraries are settled. -/
structure VersionsSettled (r : Repository) (m : Manifest) (aliases : List String)
    (known : PomCache) (s : Progress) (b : Basis) : Prop where
  /-- the libraries are in the order of their names, each once -/
  sorted : (b.libraries.map Prod.snd).Pairwise (· < ·)
  /-- they are those that a record takes in -/
  selecting : ∀ l, l ∈ b.libraries.map Prod.snd ↔ ∃ x ∈ b.trace, x.selects ∧ x.library = l
  /-- one record takes a library in -/
  once : ∀ l ∈ b.libraries.map Prod.snd,
    ∃ x, (b.trace.filter fun y => y.selects && y.library == l) = [x]
  /-- the trace goes from near to far -/
  ordered : (b.trace.map (·.path.length)).Pairwise (· ≤ ·)
  /-- a library of the manifest keeps its coordinate -/
  leading : ∀ l d, (m.topLevel aliases).get? l = some d →
    ∃ t, s.selected.get? l = some t ∧ topSelection r m l d = .ok t ∧
      ∃ before after, b.trace = before ++ ⟨[], l, "new-top-dep"⟩ :: after ∧
        ∀ y ∈ before ++ after, y.library = l → y.reason = "use-top" ∨ y.reason = "excluded"
  /-- any other library is taken in by its first mention that is not excluded -/
  nearest : ∀ l t, s.selected.get? l = some t → l ∉ (m.topLevel aliases).keys →
    ∃ before after, b.trace = before ++ ⟨t.path, l, "new-dep"⟩ :: after ∧
      (∀ y ∈ before, y.library = l → y.reason = "excluded") ∧
      ∀ y ∈ after, y.library = l → t.path.length ≤ y.path.length ∧
        (y.reason = "excluded" ∨ y.reason = "same-version" ∨ y.reason = "version-conflict")
  /-- the records on the way through a library are about its dependencies, in their order -/
  compared : ∀ l t ds, s.selected.get? l = some t → t.DependsOn r known ds →
    List.Forall₂ (Compares s.selected) ds (b.trace.filter fun x => x.path == t.way)
  /-- every record is about a library of the manifest or about a dependency of a library that is
  taken in -/
  reached : ∀ x ∈ b.trace, x.path ≠ [] →
    ∃ l t ds, s.selected.get? l = some t ∧ t.DependsOn r known ds ∧ x.path = t.way

/-! ## The order of the libraries -/

theorem pairwise_lt_of_mergeSort {taken : List Selection} (hunique : (libraryNames taken).Nodup) :
    ((taken.mergeSort fun a b => decide (a.library ≤ b.library)).map (·.library)).Pairwise
      (· < ·) := by
  have hsorted : (taken.mergeSort fun a b => decide (a.library ≤ b.library)).Pairwise
      fun a b => a.library ≤ b.library := by
    have hle : (taken.mergeSort fun a b => decide (a.library ≤ b.library)).Pairwise
        fun a b => decide (a.library ≤ b.library) = true := List.pairwise_mergeSort
      (fun a b c hab hbc => by
        simpa using String.le_trans (by simpa using hab) (by simpa using hbc))
      (fun a b => by simpa using String.le_total a.library b.library) taken
    simpa using hle
  have hdistinct : ((taken.mergeSort fun a b => decide (a.library ≤ b.library)).map
      (·.library)).Nodup :=
    ((List.mergeSort_perm taken _).map _).nodup_iff.2 hunique
  refine List.pairwise_map.2 (hsorted.imp₂ (fun a b hab hne => ?_) (List.pairwise_map.1 hdistinct))
  exact String.not_le.1 fun hba => hne (String.le_antisymm hab hba)

/-! ## What is recorded once -/

namespace Recorded

variable {trace : List TraceRecord} {x : TraceRecord} {later : List String}

/-- The record is the only one that takes its library in. -/
theorem filter_eq (h : Recorded trace x later) (hx : x.selects)
    (hlater : ∀ reason ∈ later, reason ∉ selectingReasons) :
    (trace.filter fun y => y.selects && y.library == x.library) = [x] := by
  obtain ⟨before, after, rfl, hbefore, hafter⟩ := h
  -- neither the records before nor those after take the library in
  have hnone : ∀ ys : List TraceRecord,
      (∀ y ∈ ys, y.library = x.library → y.reason ∉ selectingReasons) →
      (ys.filter fun y => y.selects && y.library == x.library) = [] := by
    intro ys hys
    rw [List.filter_eq_nil_iff]
    intro y hy hselects
    rw [Bool.and_eq_true, TraceRecord.selects, List.contains_iff_mem, beq_iff_eq] at hselects
    exact hys y hy hselects.2 hselects.1
  rw [List.filter_append, List.filter_cons_of_pos (by simp [hx]), hnone before, hnone after]
  · rfl
  · exact fun y hy hlib => hlater _ (hafter y hy hlib)
  · intro y hy hlib
    rw [hbefore y hy hlib]
    decide

end Recorded

/-- The answer to a visit compares the version that is wanted. -/
theorem Answers.compares {top : List String} {taken : List Selection} {v : Visit}
    {x : TraceRecord} (h : Answers top taken v x) (hunique : (libraryNames taken).Nodup) :
    Compares (byLibrary taken) v.dependency x := by
  refine ⟨h.library_eq, ?_, ?_⟩
  all_goals cases h with
  | excluded => simp [Visit.record]
  | useTop => simp [Visit.record]
  | @kept existing hin htop hthere hname =>
    have hget := (get?_byLibrary hunique).2 ⟨hthere, hname⟩
    by_cases hsame : existing.version = some v.dependency.version
    · simp [Visit.record, Visit.verdict, hget, hsame]
    · simp [Visit.record, Visit.verdict, hget, hsame]
  | @taken archive hin htop hthere =>
    have hget : (byLibrary taken).get? v.dependency.library = some (v.taken archive) :=
      (get?_byLibrary hunique).2 ⟨hthere, rfl⟩
    have hversion : (v.taken archive).version = some v.dependency.version := rfl
    simp [Visit.record, hget, hversion]

namespace Complete

variable {r : Repository} {m : Manifest} {aliases : List String} {known : PomCache}
  {tops taken : List Selection} {found : List (Selection × List Dependency)} {s : Progress}
  {b : Basis}

/-- A library that is taken in is taken in by one record. -/
theorem exists_recorded (h : Complete r m aliases known tops taken found s b) {t : Selection}
    (ht : t ∈ taken) : ∃ x later, Recorded b.trace x later ∧ x.library = t.library ∧
      x.selects ∧ ∀ reason ∈ later, reason ∉ selectingReasons := by
  by_cases htop : t.library ∈ libraryNames tops
  · obtain ⟨t', ht', hlib⟩ := List.mem_map.1 htop
    exact ⟨topRecord t', topReasons, h.decided.topRecords t' ht', hlib, rfl, by decide⟩
  · exact ⟨newRecord t, otherReasons, h.decided.newRecords t ht htop, rfl, rfl, by decide⟩

theorem mem_names_iff_selects (h : Complete r m aliases known tops taken found s b) {l : String} :
    l ∈ b.libraries.map Prod.snd ↔ ∃ x ∈ b.trace, x.selects ∧ x.library = l := by
  rw [h.mem_names]
  constructor
  · intro hl
    obtain ⟨t, ht, rfl⟩ := List.mem_map.1 hl
    obtain ⟨x, later, hx, hlib, hselects, -⟩ := h.exists_recorded ht
    exact ⟨x, hx.mem, hselects, hlib⟩
  · rintro ⟨x, hx, hselects, rfl⟩
    by_contra hnot
    rw [TraceRecord.selects, h.decided.unmet x hx hnot] at hselects
    exact absurd hselects (by decide)

/-- What is recorded about a library of the manifest: it is taken in by its own record, and every
other one says that it was met elsewhere or excluded there. -/
theorem exists_leading (h : Complete r m aliases known tops taken found s b) {l : String}
    {d : Datum} (hd : (m.topLevel aliases).get? l = some d) :
    ∃ t, s.selected.get? l = some t ∧ topSelection r m l d = .ok t ∧
      ∃ before after, b.trace = before ++ ⟨[], l, "new-top-dep"⟩ :: after ∧
        ∀ y ∈ before ++ after, y.library = l → y.reason = "use-top" ∨ y.reason = "excluded" := by
  have hkey : l ∈ libraryNames tops := by
    rw [h.mem_names_tops]
    by_contra hnot
    rw [Entries.get?_eq_none_iff.2 hnot] at hd
    cases hd
  obtain ⟨t, ht, rfl⟩ := List.mem_map.1 hkey
  have hselection := topSelection_of_mem h.leading ht
  rw [hd] at hselection
  obtain ⟨before, after, htrace, hbefore, hafter⟩ := h.decided.topRecords t ht
  refine ⟨t, h.get?_selected.2 ⟨h.decided.leading.subset ht, rfl⟩, hselection, before, after,
    htrace, fun y hy hlib => ?_⟩
  rcases List.mem_append.1 hy with hy | hy
  · exact .inr (hbefore y hy hlib)
  · have hreason := hafter y hy hlib
    simp only [topReasons, List.mem_cons, List.not_mem_nil, or_false] at hreason
    exact hreason.symm

/-- What is recorded about any other library. -/
theorem exists_nearest (h : Complete r m aliases known tops taken found s b) {l : String}
    {t : Selection} (ht : s.selected.get? l = some t) (hnot : l ∉ (m.topLevel aliases).keys) :
    ∃ before after, b.trace = before ++ ⟨t.path, l, "new-dep"⟩ :: after ∧
      (∀ y ∈ before, y.library = l → y.reason = "excluded") ∧
      ∀ y ∈ after, y.library = l → t.path.length ≤ y.path.length ∧
        (y.reason = "excluded" ∨ y.reason = "same-version" ∨ y.reason = "version-conflict") := by
  obtain ⟨hmem, rfl⟩ := h.get?_selected.1 ht
  obtain ⟨before, after, htrace, hbefore, hafter⟩ :=
    h.decided.newRecords t hmem (mt h.mem_names_tops.1 hnot)
  refine ⟨before, after, htrace, hbefore, fun y hy hlib => ⟨?_, ?_⟩⟩
  · have hordered := h.ordered
    rw [htrace, List.pairwise_map] at hordered
    exact (List.pairwise_cons.1 (List.pairwise_append.1 hordered).2.1).1 y hy
  · have hreason := hafter y hy hlib
    simpa only [otherReasons, List.mem_cons, List.not_mem_nil, or_false] using hreason

/-- A record that is not about a library of the manifest is on the way through a library that is
taken in. -/
theorem exists_parent (h : Complete r m aliases known tops taken found s b) {x : TraceRecord}
    (hx : x ∈ b.trace) (hpath : x.path ≠ []) :
    ∃ l t ds, s.selected.get? l = some t ∧ t.DependsOn r known ds ∧ x.path = t.way := by
  obtain ⟨answers, htrace, hanswers⟩ := h.decided.answers
  rw [htrace] at hx
  rcases List.mem_append.1 hx with hx | hx
  · obtain ⟨t, -, rfl⟩ := List.mem_map.1 hx
    exact absurd rfl hpath
  · obtain ⟨v, hv, hanswer⟩ := exists_left_of_forall₂ hanswers hx
    obtain ⟨ds, hf, -⟩ := mem_flatMap_visitsOf.1 hv
    exact ⟨v.parent.library, v.parent, ds, h.get?_selected.2 ⟨h.all.mem hf, rfl⟩,
      h.all.follows _ hf, hanswer.path_eq⟩

/-- The libraries of the basis are in order, and each is there once. -/
theorem pairwise_libraries (h : Complete r m aliases known tops taken found s b) :
    (b.libraries.map Prod.snd).Pairwise (· < ·) := by
  rw [h.libraries, List.map_map]
  exact pairwise_lt_of_mergeSort h.decided.unique

end Complete

/-- Every resolution that comes to an end settles the versions. All parts are read off the trace
and the selections of a complete resolution; that no library is taken in twice is used for most of
them. -/
theorem versionsSettled_of_within {r : Repository} {m : Manifest} {aliases : List String}
    {fuel : Nat} {known known' : PomCache} {s : Progress} {b : Basis}
    (h : (within r m aliases fuel).Yields known (s, b) known') :
    VersionsSettled r m aliases known s b := by
  obtain ⟨tops, taken, found, hcomplete⟩ := complete_of_within h
  have hunique := hcomplete.decided.unique
  refine {
    sorted := hcomplete.pairwise_libraries
    selecting := fun l => hcomplete.mem_names_iff_selects
    once := ?_
    ordered := hcomplete.ordered
    leading := fun l d hd => hcomplete.exists_leading hd
    nearest := fun l t ht hnot => hcomplete.exists_nearest ht hnot
    compared := ?_
    reached := fun x hx hpath => hcomplete.exists_parent hx hpath }
  · intro l hl
    obtain ⟨t, ht, rfl⟩ := List.mem_map.1 (hcomplete.mem_names.1 hl)
    obtain ⟨x, later, hx, hlib, hselects, hlater⟩ := hcomplete.exists_recorded ht
    rw [← hlib]
    exact ⟨x, hx.filter_eq hselects hlater⟩
  · intro l t ds ht hds
    obtain ⟨hmem, -⟩ := hcomplete.get?_selected.1 ht
    rw [hcomplete.selected]
    exact (hcomplete.answers_of_dependsOn hmem hds).imp fun d x hanswer => hanswer.compares hunique

/-- The nearest mention of `g/c` asks for the version 1, and the next one for another. -/
theorem versionsSettled_of_smallResolution : ∃ s b known',
    (within smallRepository smallManifest [] 3).Yields smallKnown (s, b) known' ∧
      b.trace = smallTrace ∧ VersionsSettled smallRepository smallManifest [] smallKnown s b := by
  obtain ⟨s, b, known', hrun, htrace⟩ := exists_smallResolution
  exact ⟨s, b, known', hrun, htrace, versionsSettled_of_within hrun⟩

end Resolution

end BuildFiles
