import BuildFiles.Proofs.Session
import Mathlib.Data.List.Nodup

/-!
# What an index holds

An index is one of a basis: its archives are those of the basis with their libraries, in the same
order and each once, and the dependencies between libraries are those of the trace. `isOf_of_index`
says so of every index that is built, and `exists_index` that one can be built where the archives
are known.
-/

namespace BuildFiles

/-! ## Claims -/

/-- Where no archive and no library is claimed twice, all claims are taken. -/
theorem claimArchives_eq_ok {claimed new all : List (Path × String)}
    (harchives : (claimed.map Prod.fst).Nodup) (hlibraries : (claimed.map Prod.snd).Nodup)
    (h : claimArchives claimed new = .ok all) :
    all = claimed ++ new ∧ (all.map Prod.fst).Nodup ∧ (all.map Prod.snd).Nodup := by
  induction new generalizing claimed with
  | nil =>
    cases h
    exact ⟨(List.append_nil _).symm, harchives, hlibraries⟩
  | cons claim new ih =>
    obtain ⟨archive, library⟩ := claim
    rw [claimArchives] at h
    split at h
    · cases h
    · next harchive =>
      split at h
      · cases h
      · next hlibrary =>
        have hnew : archive ∉ claimed.map Prod.fst := Entries.get?_eq_none_iff.1 harchive
        have hnew' : library ∉ claimed.map Prod.snd := by
          rw [List.find?_eq_none] at hlibrary
          rintro hmem
          obtain ⟨e, he, rfl⟩ := List.mem_map.1 hmem
          exact hlibrary e he (beq_self_eq_true _)
        have harchives' := List.concat_eq_append ▸ harchives.concat hnew
        have hlibraries' := List.concat_eq_append ▸ hlibraries.concat hnew'
        obtain ⟨hall, hnodup⟩ := ih (by rwa [List.map_append]) (by rwa [List.map_append]) h
        exact ⟨by rw [hall, List.append_assoc]; rfl, hnodup⟩

/-- Claims are taken one after the other as long as no archive and no library comes up again. -/
theorem claimArchives_of_nodup {claimed new : List (Path × String)}
    (harchives : ((claimed ++ new).map Prod.fst).Nodup)
    (hlibraries : ((claimed ++ new).map Prod.snd).Nodup) :
    claimArchives claimed new = .ok (claimed ++ new) := by
  induction new generalizing claimed with
  | nil => rw [List.append_nil]; rfl
  | cons claim new ih =>
    obtain ⟨archive, library⟩ := claim
    have harchive : Entries.get? claimed archive = none := by
      rw [Entries.get?_eq_none_iff]
      rw [List.map_append, List.map_cons, List.nodup_middle, List.nodup_cons] at harchives
      exact fun hmem => harchives.1 (List.mem_append_left _ hmem)
    have hlibrary : (claimed.find? fun e => e.2 == library) = none := by
      rw [List.map_append, List.map_cons, List.nodup_middle, List.nodup_cons] at hlibraries
      rw [List.find?_eq_none]
      intro e he hsame
      exact hlibraries.1 (List.mem_append_left _ (List.mem_map.2 ⟨e, he, eq_of_beq hsame⟩))
    have hsplit :
        claimed ++ (archive, library) :: new = claimed ++ [(archive, library)] ++ new := by
      rw [List.append_assoc]
      rfl
    rw [hsplit] at harchives hlibraries
    rw [claimArchives]
    simp only [harchive, hlibrary]
    rw [ih harchives hlibraries, hsplit]

theorem archiveLibraries_eq_ok {b : Basis} {claimed : Entries Path String}
    (h : b.archiveLibraries = .ok claimed) :
    claimed = b.libraries ∧ (claimed.map Prod.fst).Nodup ∧ (claimed.map Prod.snd).Nodup :=
  claimArchives_eq_ok (by simp) (by simp) h

/-! ## Archives that are known -/

/-- The session knows the contents of archives only, as one that has just begun does. -/
def Session.KnowsArchives (s : Session) : Prop :=
  ∀ p contents, s.archives.get? p = some contents → p.suffix = ".jar"

theorem Archive.Contents.suffix_of_ofFile {t : Tree} {p : Path} {contents : Archive.Contents}
    (h : (ofFile t p).Yields contents) : p.suffix = ".jar" := by
  obtain ⟨o, ho, -⟩ := h.bind
  by_contra hsuffix
  have hopened := ho.of
  rw [opened, if_pos hsuffix] at hopened
  cases hopened

namespace Run

variable {s s' : Session}

/-- What is scanned is an archive, and nothing else becomes known. -/
theorem knowsArchives_of_scan {p : Path} {contents : Archive.Contents} (hs : s.KnowsArchives)
    (h : (scan p).Yields s contents s') : s'.KnowsArchives ∧ p.suffix = ".jar" := by
  rcases h.scan_cases with ⟨hknown, rfl⟩ | ⟨hfile, -, harchives⟩
  · exact ⟨hs, hs p contents hknown⟩
  · have hsuffix := Archive.Contents.suffix_of_ofFile hfile
    refine ⟨fun p' known hp' => ?_, hsuffix⟩
    rw [harchives, Entries.get?_insert] at hp'
    split at hp'
    · next hsame => rwa [← eq_of_beq hsame]
    · exact hs p' known hp'

theorem knowsArchives_of_scanLibrary {claim : Path × String} {x : ScannedLibrary}
    (hs : s.KnowsArchives) (h : (scanLibrary claim).Yields s x s') :
    s'.KnowsArchives ∧ x.archive.suffix = ".jar" := by
  obtain ⟨contents, mid, hscan, hpure⟩ := h.bind
  obtain ⟨rfl, rfl⟩ := hpure.pure
  exact knowsArchives_of_scan hs hscan

theorem claim_of_scanLibrary {claim : Path × String} {x : ScannedLibrary}
    (h : (scanLibrary claim).Yields s x s') : (x.archive, x.library) = claim := by
  obtain ⟨contents, mid, -, hpure⟩ := h.bind
  obtain ⟨rfl, -⟩ := hpure.pure
  rfl

end Run

/-! ## An index of a basis -/

/-- What an index takes over from its basis. -/
structure Index.IsOf (i : Index) (b : Basis) : Prop where
  claims : i.scanned.map (fun s => (s.archive, s.library)) = b.libraries
  archives : (b.libraries.map Prod.fst).Nodup
  libraries : (b.libraries.map Prod.snd).Nodup
  dependencies : i.dependencies = directDependencies b.trace

namespace Index.IsOf

variable {i : Index} {b : Basis}

/-- A library with its archive is in the index when it is on the classpath. -/
theorem mem_libraries (h : i.IsOf b) {archive : Path} {library : String} :
    (archive, library) ∈ b.libraries ↔
      ∃ s ∈ i.scanned, s.archive = archive ∧ s.library = library := by
  rw [← h.claims, List.mem_map]
  simp only [Prod.mk.injEq]

theorem nodup_libraries (h : i.IsOf b) : (i.scanned.map (·.library)).Nodup := by
  have hlibraries := h.libraries
  rwa [← h.claims, List.map_map] at hlibraries

end Index.IsOf

theorem fields_of_build {t : Tree} {base : Path} {named : List String} {b : Basis}
    {scanned : List ScannedLibrary} {i : Index}
    (h : (Index.build t base named b scanned).Yields i) :
    i.dependencies = directDependencies b.trace ∧ i.excluded = excludedFromCompilation named := by
  obtain ⟨labels, -, hrest⟩ := h.bind
  obtain ⟨_, -, hpure⟩ := hrest.bind
  rw [hpure.pure]
  exact ⟨rfl, rfl⟩

section Index

variable {base : Path} {named : List String} {b : Basis} {i : Index} {before mid : Session}

theorem isOf_of_index (h : (Run.index base named b).Yields before i mid) : i.IsOf b := by
  obtain ⟨claimed, mid', hclaimed, hrest⟩ := h.bind
  obtain ⟨hok, -⟩ := hclaimed.reading
  obtain ⟨rfl, hnodup, hnodup'⟩ := archiveLibraries_eq_ok hok.of
  obtain ⟨scanned, mid'', hscanned, hbuild⟩ := hrest.bind
  obtain ⟨hi, -⟩ := hbuild.reading
  obtain ⟨-, hall⟩ := Run.Yields.mapM (I := fun _ => True)
    (R := fun claim x => (x.archive, x.library) = claim)
    (fun _ _ _ _ _ hx => ⟨trivial, Run.claim_of_scanLibrary hx⟩) trivial hscanned
  refine ⟨?_, hnodup, hnodup', (fields_of_build hi).1⟩
  rw [Run.scanned_of_build hi, ← List.forall₂_eq_eq_eq, List.forall₂_map_left_iff]
  exact hall.flip

/-- The archives of an index are archives. -/
theorem suffix_of_index (hbefore : before.KnowsArchives)
    (h : (Run.index base named b).Yields before i mid) :
    ∀ x ∈ i.scanned, x.archive.suffix = ".jar" := by
  obtain ⟨claimed, mid', hclaimed, hrest⟩ := h.bind
  obtain ⟨scanned, mid'', hscanned, hbuild⟩ := hrest.bind
  have harchives := hclaimed.reading.2
  have hknows : mid'.KnowsArchives := fun p contents hp => hbefore p contents (harchives ▸ hp)
  obtain ⟨-, hall⟩ := Run.Yields.mapM (I := Session.KnowsArchives)
    (R := fun _ x => x.archive.suffix = ".jar")
    (fun _ _ _ _ => Run.knowsArchives_of_scanLibrary) hknows hscanned
  rw [Run.scanned_of_build hbuild.reading.1]
  intro x hx
  obtain ⟨claim, -, hsuffix⟩ := exists_left_of_forall₂ hall hx
  exact hsuffix

/-- All namespaces are compiled but those that are never, or that are named. -/
theorem compiles_of_index (h : (Run.index base named b).Yields before i mid) {ns : String} :
    i.compiles ns = true ↔ ns ∉ neverCompiled ∧ ns ∉ named := by
  obtain ⟨claimed, mid', -, hrest⟩ := h.bind
  obtain ⟨scanned, mid'', -, hbuild⟩ := hrest.bind
  rw [Index.compiles, isCompiled, (fields_of_build hbuild.reading.1).2]
  simp [excludedFromCompilation]
  tauto

end Index

/-! ## An index of archives that are known -/

theorem Run.exists_scanned {s : Session} {claims : List (Path × String)}
    (h : ∀ claim ∈ claims, ∃ contents, s.archives.get? claim.1 = some contents) :
    ∃ scanned, (claims.mapM scanLibrary).Yields s scanned s ∧
      ∀ x ∈ scanned, s.archives.get? x.archive = some x.contents := by
  induction claims with
  | nil => exact ⟨[], rfl, by simp⟩
  | cons claim claims ih =>
    obtain ⟨⟨contents, hcontents⟩, hrest⟩ := List.forall_mem_cons.1 h
    obtain ⟨scanned, hscanned, hall⟩ := ih hrest
    have hclaim : (scanLibrary claim).Yields s ⟨claim.1, claim.2, contents⟩ s :=
      Yields.then (scan_of_known hcontents) rfl
    refine ⟨⟨claim.1, claim.2, contents⟩ :: scanned, ?_, List.forall_mem_cons.2 ⟨hcontents, hall⟩⟩
    rw [List.mapM_cons]
    exact hclaim.then (hscanned.then rfl)

/-- A classpath of archives that are known, with no archive and no library twice, is indexed. -/
theorem Run.exists_index {b : Basis} {before : Session} (hsources : b.sourceEntries = [])
    (harchives : (b.libraries.map Prod.fst).Nodup) (hlibraries : (b.libraries.map Prod.snd).Nodup)
    (hknown : ∀ claim ∈ b.libraries, ∃ contents, before.archives.get? claim.1 = some contents)
    (base : Path) (named : List String) :
    ∃ i mid, (Run.index base named b).Yields before i mid ∧
      ∀ x ∈ i.scanned, before.archives.get? x.archive = some x.contents := by
  have hclaimed : b.archiveLibraries = .ok b.libraries :=
    claimArchives_of_nodup (by simpa using harchives) (by simpa using hlibraries)
  obtain ⟨records, hlogged⟩ := exists_reading (s := before)
    (f := fun _ => Logged.of b.archiveLibraries) (.of hclaimed)
  obtain ⟨scanned, hscanned, hall⟩ :=
    exists_scanned (s := { before with records := records }) hknown
  have hlabels : (Index.sourceLabelsOf before.tree base b).Returns [] := by
    rw [Index.sourceLabelsOf, hsources]
    exact (Logged.Returns.pure []).bind (.pure _)
  obtain ⟨records', hbuild⟩ := exists_reading (s := { before with records := records })
    (f := fun t => Index.build t base named b scanned)
    (hlabels.bind ((Logged.Returns.sayAll _).bind (.pure _)))
  exact ⟨_, _, hlogged.then (hscanned.then hbuild), hall⟩

end BuildFiles
