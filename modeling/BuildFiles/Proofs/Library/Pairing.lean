import BuildFiles.Proofs.Entries
import BuildFiles.Proofs.Library.Index

/-!
# Archives and their libraries

Two elements of a classpath clash if they are the same archive or are of the same library. A
classpath with a clash has no index, and that is the only fault that its libraries can have
(`archiveLibraries_eq_error_iff`). In any index that is built the map from the archives to their
libraries and the one from the libraries to their archives are inverse to each other, and their
pairs are those of the classpath: `Basis.isPairing_of_index`.
-/

namespace BuildFiles

/-! ## Clashes -/

/-- Two elements of the classpath that are of libraries are the same archive or of the same
library. -/
def Basis.HasClash (b : Basis) : Prop :=
  ∃ e e', [e, e'].Sublist b.classpath ∧ ∃ library library', e.library = some library ∧
    e'.library = some library' ∧ (e.path = e'.path ∨ library = library')

/-- Where there is no clash, no archive and no library is twice among the libraries. -/
theorem Basis.not_hasClash_iff {b : Basis} : ¬ b.HasClash ↔
    (b.libraries.map Prod.fst).Nodup ∧ (b.libraries.map Prod.snd).Nodup := by
  rw [List.Nodup, List.Nodup, List.pairwise_map, List.pairwise_map, ← List.pairwise_and_iff,
    Basis.libraries, List.pairwise_filterMap, List.pairwise_iff_forall_sublist]
  simp only [Option.map_eq_some_iff]
  constructor
  · rintro hnone e e' hsub - ⟨library, hlibrary, rfl⟩ - ⟨library', hlibrary', rfl⟩
    exact ⟨fun hpath => hnone ⟨e, e', hsub, library, library', hlibrary, hlibrary', .inl hpath⟩,
      fun hsame => hnone ⟨e, e', hsub, library, library', hlibrary, hlibrary', .inr hsame⟩⟩
  · rintro hapart ⟨e, e', hsub, library, library', hlibrary, hlibrary', hsame⟩
    obtain ⟨hpath, hname⟩ := hapart hsub _ ⟨library, hlibrary, rfl⟩ _ ⟨library', hlibrary', rfl⟩
    exact hsame.elim hpath hname

/-- Claims are refused as a fault of the resolution only. -/
theorem claimArchives_eq_error {claimed new : List (Path × String)} {e : Fault}
    (h : claimArchives claimed new = .error e) : ∃ cause, e = .resolution cause := by
  induction new generalizing claimed with
  | nil => cases h
  | cons claim new ih =>
    rw [claimArchives] at h
    split at h
    · exact ⟨_, (Except.error.inj h).symm⟩
    · split at h
      · exact ⟨_, (Except.error.inj h).symm⟩
      · exact ih h

namespace Basis

variable {b : Basis}

theorem archiveLibraries_of_not_hasClash (h : ¬ b.HasClash) :
    b.archiveLibraries = .ok b.libraries := by
  obtain ⟨harchives, hlibraries⟩ := not_hasClash_iff.1 h
  exact claimArchives_of_nodup (by simpa using harchives) (by simpa using hlibraries)

/-- The libraries of a classpath are refused exactly if it has a clash. -/
theorem archiveLibraries_eq_error_iff :
    (∃ cause, b.archiveLibraries = .error (.resolution cause)) ↔ b.HasClash := by
  constructor
  · rintro ⟨cause, hcause⟩
    by_contra hnone
    rw [archiveLibraries_of_not_hasClash hnone] at hcause
    cases hcause
  · intro hclash
    rcases hclaimed : b.archiveLibraries with e | claimed
    · obtain ⟨cause, rfl⟩ := claimArchives_eq_error hclaimed
      exact ⟨cause, rfl⟩
    · obtain ⟨rfl, hnodup⟩ := archiveLibraries_eq_ok hclaimed
      exact absurd hclash (not_hasClash_iff.2 hnodup)

end Basis

/-! ## The two maps of an index -/

namespace Index

/-- The map from the archives to the libraries and the one back are inverse to each other, and their
pairs are the given ones. -/
structure IsPairing (i : Index) (pairs : List (Path × String)) : Prop where
  there : ∀ archive library, i.archiveLibraries.get? archive = some library →
    i.libraryArchives.get? library = some archive
  back : ∀ library archive, i.libraryArchives.get? library = some archive →
    i.archiveLibraries.get? archive = some library
  mem_iff : ∀ archive library, i.archiveLibraries.get? archive = some library ↔
    (archive, library) ∈ pairs
  archives : i.archiveLibraries = pairs
  libraries : i.libraryArchives = pairs.map Prod.swap

/-- The maps of an index are the claims of its basis as they stand, one read from left to right and
the other from right to left; no archive and no library has two claims. -/
theorem IsOf.isPairing {i : Index} {b : Basis} (h : i.IsOf b) : i.IsPairing b.libraries := by
  have harchives : i.archiveLibraries = b.libraries := by
    rw [archiveLibraries, h.claims]
    exact Entries.ofList_of_nodup h.archives
  have hclaims : (i.scanned.map fun s => (s.library, s.archive)) = b.libraries.map Prod.swap := by
    rw [← h.claims, List.map_map]
    rfl
  have hkeys : Entries.keys (b.libraries.map Prod.swap) = b.libraries.map Prod.snd := by
    rw [Entries.keys, List.map_map]
    rfl
  have hnodup : (Entries.keys (b.libraries.map Prod.swap)).Nodup := hkeys ▸ h.libraries
  have hlibraries : i.libraryArchives = b.libraries.map Prod.swap := by
    rw [libraryArchives, hclaims]
    exact Entries.ofList_of_nodup hnodup
  have hmem : ∀ archive library, i.archiveLibraries.get? archive = some library ↔
      (archive, library) ∈ b.libraries := by
    intro archive library
    rw [harchives]
    exact Entries.get?_eq_some_iff_mem h.archives
  have hmem' : ∀ library archive, i.libraryArchives.get? library = some archive ↔
      (archive, library) ∈ b.libraries := by
    intro library archive
    rw [hlibraries, Entries.get?_eq_some_iff_mem hnodup]
    exact List.mem_map_of_injective Prod.swap_injective (a := (archive, library))
  exact ⟨fun archive library hget => (hmem' _ _).2 ((hmem _ _).1 hget),
    fun library archive hget => (hmem _ _).2 ((hmem' _ _).1 hget), hmem, harchives, hlibraries⟩

end Index

/-- An index is not even begun if the libraries are refused. -/
theorem Run.fails_index {b : Basis} {e : Fault} (h : b.archiveLibraries = .error e) (base : Path)
    (named : List String) (s : Session) : (index base named b).Fails s e s := by
  refine Fails.of_first ?_ _
  rw [Fails, logged, run_reading, h]
  rfl

/-- The libraries of a classpath are refused, with a fault of the resolution, exactly if two of its
elements are the same archive or of the same library, and then no index is built. Otherwise they are
those of the classpath, and the two maps of any index that is built are inverse to each other, with
the pairs of the classpath. -/
theorem Basis.isPairing_of_index (b : Basis) :
    ((∃ cause, b.archiveLibraries = .error (.resolution cause)) ↔ b.HasClash) ∧
      (∀ e, b.archiveLibraries = .error e → ∀ base named s, (Run.index base named b).Fails s e s) ∧
      (¬ b.HasClash → b.archiveLibraries = .ok b.libraries) ∧
      ∀ base named s i s', (Run.index base named b).Yields s i s' → i.IsPairing b.libraries :=
  ⟨archiveLibraries_eq_error_iff, fun _ h base named s => Run.fails_index h base named s,
    archiveLibraries_of_not_hasClash, fun _ _ _ _ _ h => (isOf_of_index h).isPairing⟩

/-- A session that knows two archives with nothing in them. -/
def pairedSession : Session where
  tree := {}
  archives := [(.parse "/r/a.jar", ⟨[], []⟩), (.parse "/r/b.jar", ⟨[], []⟩)]

/-- A classpath with both archives. -/
def pairedBasis : Basis where
  classpath := [{ path := .parse "/r/a.jar", library := some "g/a" },
    { path := .parse "/r/b.jar", library := some "g/b" }]

/-- There is an index of them, in which the second library is told by its archive and the archive by
the library. -/
theorem isPairing_of_index_paired : ∃ i mid,
    (Run.index (.parse "/w") [] pairedBasis).Yields pairedSession i mid ∧
      i.archiveLibraries.get? (.parse "/r/b.jar") = some "g/b" ∧
      i.libraryArchives.get? "g/b" = some (.parse "/r/b.jar") := by
  obtain ⟨i, mid, hindex, -⟩ := Run.exists_yields (Run.index (.parse "/w") [] pairedBasis)
    pairedSession (fun _ => true) (by decide +kernel)
  obtain ⟨-, -, -, hpairing⟩ := Basis.isPairing_of_index pairedBasis
  have hpaired := hpairing _ _ _ _ _ hindex
  have hget := (hpaired.mem_iff (.parse "/r/b.jar") "g/b").2
    (by simp [Basis.libraries, pairedBasis])
  exact ⟨i, mid, hindex, hget, hpaired.there _ _ hget⟩

end BuildFiles
