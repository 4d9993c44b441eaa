import BuildFiles.Proofs.Manifest.Aliases
import BuildFiles.Proofs.Tree
import BuildFiles.Sources.Targets

/-!
# The source path of a file

A source path is used in two ways: the folder of sources is what it resolves to, and whether a file
lies in it is told from the path as it is written. These agree where the path goes down from the
folder of the manifest, or from the root (`Manifest.IsDirect`). With a path that goes back on its
way, such as `src/../lib`, no file is found to lie in it, so a file of that folder may be found in
no source path at all: `Manifest.stripPrefix?_of_sourceEntries`.
-/

namespace BuildFiles

variable {m : Manifest} {aliases : List String} {entries : List ClasspathEntry} {p : String}
  {e : ClasspathEntry} {file : Path} {c : Sources.Context}

namespace Manifest

/-- The path, taken from the folder of the manifest as it is written, is a resolved one already. -/
def IsDirect (m : Manifest) (p : String) : Prop := (m.folder / p).IsResolved

instance (m : Manifest) (p : String) : Decidable (m.IsDirect p) :=
  inferInstanceAs (Decidable ((m.folder / p).anchor = .root ∧ ".." ∉ (m.folder / p).names))

/-- The folder of sources that was made of the path. -/
def IsEntryOf (m : Manifest) (aliases : List String) (entries : List ClasspathEntry) (p : String)
    (e : ClasspathEntry) : Prop := (p, e) ∈ (m.keyedPaths aliases).keys.zip entries

/-- A path is direct if it does not go back and does not start with two slashes. -/
theorem isDirect_iff (h : m.folder.IsResolved) :
    m.IsDirect p ↔ ".." ∉ (Path.parse p).names ∧ (Path.parse p).anchor ≠ .doubleRoot := by
  change (m.folder.join (.parse p)).IsResolved ↔ _
  rw [Path.join, Path.IsResolved]
  split
  · next hrelative =>
    have hanchor : (Path.parse p).anchor = .relative := by simpa [Path.isRelative] using hrelative
    simp [h.1, h.2, hanchor]
  · next hrooted =>
    have hanchor : (Path.parse p).anchor ≠ .relative := by simpa [Path.isRelative] using hrooted
    rw [and_comm]
    refine and_congr_right fun _ => ?_
    cases hstart : (Path.parse p).anchor with
    | relative => exact absurd hstart hanchor
    | root => decide
    | doubleRoot => decide

/-- A file is found to lie in a path as it is written exactly if it lies in the folder that was made
of it and the path is direct. -/
theorem isWithin_iff (hpath : m.folder.resolved (.parse p) = .ok e.path) (hfile : file.IsResolved) :
    file.isWithin (m.folder / p) = true ↔ m.IsDirect p ∧ file.isWithin e.path = true := by
  have hsettled := Tree.eq_settled_of_resolved hpath
  constructor
  · intro h
    have hdirect : m.IsDirect p := hfile.of_isWithin h
    rw [hsettled, Path.settled_of_isResolved hdirect]
    exact ⟨hdirect, h⟩
  · rintro ⟨hdirect, h⟩
    rwa [hsettled, Path.settled_of_isResolved hdirect] at h

/-- The search takes the first path that is direct and whose folder has the file. -/
theorem search_eq {ps : List String} (hbase : c.base = m.folder) (hfile : file.IsResolved)
    (h : List.Forall₂ (fun p e => m.folder.resolved (.parse p) = .ok e.path) ps entries) :
    Sources.Context.stripPrefix?.search c file (ps.map .str) =
      .ok (((ps.zip entries).find? fun pe =>
        decide (m.IsDirect pe.1) && file.isWithin pe.2.path).map Prod.fst) := by
  induction h with
  | nil => rfl
  | @cons p e ps entries hpath _ ih =>
    have hiff := isWithin_iff hpath hfile
    rw [List.map_cons, Sources.Context.stripPrefix?.search, hbase, ih, List.zip_cons_cons,
      List.find?_cons]
    by_cases hwithin : file.isWithin (m.folder / p) = true
    · obtain ⟨hdirect, hentry⟩ := hiff.1 hwithin
      simp [hwithin, hdirect, hentry]
    · have hnot : (decide (m.IsDirect p) && file.isWithin e.path) = false := by
        simpa using mt hiff.2 hwithin
      simp [hwithin, hnot]

/-- The source path that is given for a file is one whose folder of sources has the file. None is
given exactly if each such path, should there be any, is not direct; as a path is not that goes back
or starts with two slashes. -/
theorem stripPrefix?_of_sourceEntries (hentries : m.sourceEntries aliases = .ok entries)
    (c : Sources.Context) (hbase : c.base = m.folder)
    (hpaths : c.sourcePaths = (m.keyedPaths aliases).keys.map .str) (file : Path)
    (hfile : file.IsResolved) : ∃ strip, c.stripPrefix? file = .ok strip ∧
      (∀ p, strip = some p →
        ∃ e, m.IsEntryOf aliases entries p e ∧ file.isWithin e.path = true) ∧
      (strip = none ↔ ∀ p e, m.IsEntryOf aliases entries p e → file.isWithin e.path = true →
        ¬m.IsDirect p) ∧
      (m.folder.IsResolved → ∀ p,
        m.IsDirect p ↔ ".." ∉ (Path.parse p).names ∧ (Path.parse p).anchor ≠ .doubleRoot) := by
  have hsearch := search_eq hbase hfile (forall₂_of_sourceEntries hentries)
  rw [← hpaths] at hsearch
  refine ⟨_, hsearch, fun p hp => ?_, ?_, fun hfolder p => isDirect_iff hfolder⟩
  · obtain ⟨⟨p, e⟩, hfound, rfl⟩ := Option.map_eq_some_iff.1 hp
    have hkept := List.find?_some hfound
    rw [Bool.and_eq_true] at hkept
    exact ⟨e, List.mem_of_find?_eq_some hfound, hkept.2⟩
  · rw [Option.map_eq_none_iff, List.find?_eq_none]
    constructor
    · intro hnone p e hmem hwithin hdirect
      exact hnone (p, e) hmem (by simp [hdirect, hwithin])
    · rintro hnone ⟨p, e⟩ hmem hkept
      rw [Bool.and_eq_true, decide_eq_true_eq] at hkept
      exact hnone p e hmem hkept.2 hkept.1

/-- A manifest with a source path that goes back, and with no other. -/
def backward : Manifest where
  path := ⟨.root, ["w", "deps.edn"]⟩
  paths := ["src/../lib"]

/-- What the targets of its sources are made from. -/
def backwardContext : Sources.Context where
  index := {}
  overrides := {}
  settings := {}
  base := ⟨.root, ["w"]⟩
  sourcePaths := [.str "src/../lib"]

/-- A file of the folder that the path leads to is given no source path. -/
theorem stripPrefix?_backward :
    backward.sourceEntries [] = .ok [{ path := ⟨.root, ["w", "lib"]⟩, pathKey := some "paths" }] ∧
      (Path.mk .root ["w", "lib", "x.clj"]).isWithin ⟨.root, ["w", "lib"]⟩ = true ∧
      backwardContext.stripPrefix? ⟨.root, ["w", "lib", "x.clj"]⟩ = .ok none := by
  have hentries : backward.sourceEntries [] =
      .ok [{ path := ⟨.root, ["w", "lib"]⟩, pathKey := some "paths" }] := by
    with_unfolding_all rfl
  have hkeys : (backward.keyedPaths []).keys = ["src/../lib"] := by decide +kernel
  obtain ⟨strip, hstrip, -, hnone, -⟩ := stripPrefix?_of_sourceEntries hentries
    backwardContext rfl (by rw [hkeys]; rfl) ⟨.root, ["w", "lib", "x.clj"]⟩ ⟨rfl, by decide⟩
  refine ⟨hentries, by decide, ?_⟩
  rw [hstrip, hnone.2]
  intro p e hmem _
  rw [IsEntryOf, hkeys] at hmem
  obtain ⟨rfl, rfl⟩ := Prod.mk.inj (List.mem_singleton.1 hmem)
  decide +kernel

end Manifest

end BuildFiles
