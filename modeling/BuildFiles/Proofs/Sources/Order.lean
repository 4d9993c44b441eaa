import BuildFiles.Proofs.Sources.Repetition

/-!
# Generating in any order

The text of a build file is made of the sources, and no build file is one. So whichever build files
were generated before, each folder gets the text that it would have got at first. `Attempted` says
what the tree is when generating was tried for some folders. Neither the order of the folders nor
how often each was tried comes into it, so another order leaves the same bytes:
`attemptAll_of_order`.
-/

namespace BuildFiles

namespace Sources

variable {t t' t'' : Tree} {l : Layout} {folder folder' p : Path} {done rest order : List Path}
  {text : String} {place : Location} {s s' : Session}

namespace Layout

/-- The tree after generating the build file of a folder, which is as it was if that fails. -/
def attempt (l : Layout) (t : Tree) (folder : Path) : Tree :=
  match (l.generate t folder).outcome.1 with
  | .ok (t', _) => t'
  | .error _ => t

/-- The tree after that for one folder after the other. -/
def attemptAll (l : Layout) (t : Tree) (order : List Path) : Tree := order.foldl l.attempt t

/-- The tree is a proper one, no folder of it is listed under two paths, and the build file of each
folder that is listed has a text. -/
structure Renders (l : Layout) (t : Tree) : Prop where
  proper : t.IsProper
  once : ∀ p ∈ l.folders, ∀ q ∈ l.folders, ∀ place, t.locate p = .ok place →
    t.locate q = .ok place → p = q
  texts : ∀ folder ∈ l.folders, ∃ text, (l.text t folder).Yields text

/-- Resolved paths lead to different places, so each names a folder of its own. -/
theorem renders_of_isResolved (ht : t.IsProper) (hfolders : ∀ p ∈ l.folders, p.IsResolved)
    (htexts : ∀ folder ∈ l.folders, ∃ text, (l.text t folder).Yields text) : l.Renders t := by
  refine ⟨ht, fun p hp q hq place hplace hplace' => ?_, htexts⟩
  have hnames : p.names = q.names := by
    rw [← Tree.locate_eq_ok (hfolders p hp) hplace, ← Tree.locate_eq_ok (hfolders q hq) hplace']
  obtain ⟨anchor, names⟩ := p
  obtain ⟨anchor', names'⟩ := q
  rw [Path.mk.injEq]
  exact ⟨(hfolders _ hp).1.trans (hfolders _ hq).1.symm, hnames⟩

/-- A build file can be written in the folder: its path can be looked at, and leads to no folder. -/
def IsWritable (t : Tree) (folder : Path) : Prop :=
  ∃ place, t.locate (folder.entry BuildFile.fileName) = .ok place ∧ t.isFolder place = false

/-! ## One folder -/

theorem isStep_fileName : Tree.IsStep BuildFile.fileName :=
  ⟨by decide, by decide +kernel, by decide⟩

/-- Only a folder has a text. -/
theorem exists_of_text (h : (l.text t folder).Yields text) :
    ∃ place, t.locate folder = .ok place ∧ t.isFolder place = true := by
  obtain ⟨own, hown, -⟩ := h.bind
  obtain ⟨files, hfiles, -⟩ := hown.bind
  have hfiles := hfiles.of
  rw [filesIn] at hfiles
  split at hfiles
  · cases hfiles
  · next place hplace =>
    split at hfiles
    · next hthere => exact ⟨place, hplace, hthere⟩
    · cases hfiles

theorem attempt_of_returns (h : (l.generate t folder).Returns (t', p)) :
    l.attempt t folder = t' := by
  obtain ⟨said, hrun⟩ := h []
  rw [attempt, Logged.outcome, hrun]

theorem attempt_of_yields (h : (l.generate t folder).Yields (t', p)) :
    l.attempt t folder = t' := by
  obtain ⟨text, changed, htext, hupdate, rfl⟩ := Yields.generate h
  exact attempt_of_returns (returns_generate (htext.returns (l.steady_text t folder)) hupdate)

theorem attempt_of_fails {e : Fault} (h : (l.generate t folder).Fails e) :
    l.attempt t folder = t := by
  obtain ⟨said, hrun⟩ := h []
  rw [attempt, Logged.outcome, hrun]

theorem fails_generate {e : FileFault} (htext : (l.text t folder).Returns text)
    (hupdate : t.update (folder.entry BuildFile.fileName) text = .error e) :
    (l.generate t folder).Fails (.file e) := by
  refine htext.bind_fails ?_
  simp only [show folder.join (.ofNames [BuildFile.fileName]) = folder.entry BuildFile.fileName
    from rfl, hupdate]
  exact .throw _

/-- The build file of a folder comes to hold the text, or cannot be written. -/
theorem generate_cases (ht : t.IsApart) (htext : (l.text t folder).Returns text) :
    (∃ place, t.locate (folder.entry BuildFile.fileName) = .ok place ∧ t.isFolder place = false ∧
      (l.generate t folder).Returns
        (t.put place (Tree.leftBy (t.get? place) text), folder.entry BuildFile.fileName)) ∨
    ¬IsWritable t folder ∧ ∃ e, (l.generate t folder).Fails e := by
  obtain ⟨above, habove, hthere⟩ := exists_of_text htext.yields
  by_cases hwritable : IsWritable t folder
  · obtain ⟨place, hplace, hfree⟩ := hwritable
    obtain ⟨changed, hupdate⟩ :=
      Tree.exists_update ht habove hthere isStep_fileName (by decide) hplace hfree text
    exact .inl ⟨place, hplace, hfree, returns_generate htext hupdate⟩
  · have hblocked : ∀ place, t.locate (folder.entry BuildFile.fileName) = .ok place →
        t.isFolder place = true := by
      intro place hplace
      rw [← Bool.not_eq_false]
      exact fun hfree => hwritable ⟨place, hplace, hfree⟩
    obtain ⟨e, hupdate⟩ :=
      Tree.exists_error_of_update ht habove hthere isStep_fileName hblocked text
    exact .inr ⟨hwritable, _, fails_generate htext hupdate⟩

/-- The build file of a folder with a text lies in it. -/
theorem exists_of_locate_entry (htext : (l.text t folder).Yields text)
    (hplace : t.locate (folder.entry BuildFile.fileName) = .ok place) :
    ∃ above, t.locate folder = .ok above ∧ t.isFolder above = true ∧
      place = above ++ [BuildFile.fileName] := by
  obtain ⟨above, habove, hthere⟩ := exists_of_text htext
  rw [Tree.locate_entry habove hthere isStep_fileName] at hplace
  obtain ⟨_, -, rfl⟩ := Except.map_eq_ok hplace
  exact ⟨above, habove, hthere, rfl⟩

/-- No two folders of the layout have the same build file, since each has its own in it. -/
theorem Renders.eq_of_locate_entry (h : l.Renders t) (hfolder : folder ∈ l.folders)
    (hfolder' : folder' ∈ l.folders)
    (hplace : t.locate (folder.entry BuildFile.fileName) = .ok place)
    (hplace' : t.locate (folder'.entry BuildFile.fileName) = .ok place) : folder = folder' := by
  obtain ⟨text, htext⟩ := h.texts folder hfolder
  obtain ⟨text', htext'⟩ := h.texts folder' hfolder'
  obtain ⟨above, habove, -, rfl⟩ := exists_of_locate_entry htext hplace
  obtain ⟨above', habove', -, hsame⟩ := exists_of_locate_entry htext' hplace'
  obtain rfl := List.append_cancel_right hsame
  exact h.once folder hfolder folder' hfolder' above habove habove'

/-! ## Folders one after the other -/

/-- What a tree is after generating was tried for some folders: each build file that can be written
holds its text, and all else is as it was. -/
structure Attempted (l : Layout) (t t' : Tree) (done : List Path) : Prop where
  sources : t.SameSources t'
  apart : t'.IsApart
  written : ∀ folder ∈ done, ∀ text place, (l.text t folder).Yields text →
    t.locate (folder.entry BuildFile.fileName) = .ok place → t.isFolder place = false →
    t'.get? place = some (Tree.leftBy (t.get? place) text)
  kept : ∀ place, (∀ folder ∈ done, t.locate (folder.entry BuildFile.fileName) = .ok place →
    t.isFolder place = true) → t'.get? place = t.get? place

namespace Attempted

theorem refl (ht : t.IsProper) (l : Layout) : l.Attempted t t [] :=
  ⟨.refl t, ht.isApart, nofun, fun _ _ => rfl⟩

/-- A folder has the text that it had at first. -/
theorem text_eq (h : l.Attempted t t' done) (htext : (l.text t folder).Yields text) :
    l.text t' folder = l.text t folder := by
  obtain ⟨above, habove, hthere⟩ := exists_of_text htext
  refine (Layout.text_eq h.sources ?_ l).symm
  rw [Tree.hasFolder, Tree.holdsAt, habove]
  exact congrArg Except.ok hthere

theorem isWritable_iff (h : l.Attempted t t' done) :
    IsWritable t' folder ↔ IsWritable t folder := by
  refine exists_congr fun place => ?_
  rw [(h.sources.locate _).ok_iff, h.sources.folders]

/-- A folder that cannot be written in leaves all as it is. -/
theorem skip (h : l.Attempted t t' done) (hblocked : ¬IsWritable t folder) :
    l.Attempted t t' (done ++ [folder]) := by
  refine ⟨h.sources, h.apart, fun folder' hfolder' text place htext hplace hfree => ?_,
    fun place hkept => ?_⟩
  · rcases List.mem_append.1 hfolder' with hmem | hmem
    · exact h.written folder' hmem text place htext hplace hfree
    · rw [List.mem_singleton.1 hmem] at hplace
      exact absurd ⟨place, hplace, hfree⟩ hblocked
  · exact h.kept place fun folder' hfolder' => hkept folder' (List.mem_append_left _ hfolder')

section Written

variable (h : l.Attempted t t' done) (hl : l.Renders t) (hdone : ∀ p ∈ done, p ∈ l.folders)
  (hfolder : folder ∈ l.folders) (htext : (l.text t folder).Yields text)
  (hplace : t.locate (folder.entry BuildFile.fileName) = .ok place)
  (hfree : t.isFolder place = false)
include h hl hdone hfolder htext hplace hfree

/-- The bytes that a folder comes to do not depend on whether it was tried before. -/
theorem leftBy_eq : Tree.leftBy (t'.get? place) text = Tree.leftBy (t.get? place) text := by
  by_cases hmem : folder ∈ done
  · rw [h.written folder hmem text place htext hplace hfree, Tree.leftBy_leftBy]
  · rw [h.kept place fun folder' hfolder' hplace' => ?_]
    obtain rfl := hl.eq_of_locate_entry hfolder (hdone _ hfolder') hplace hplace'
    exact absurd hfolder' hmem

/-- An attempt that writes leaves the file that was expected, and all other places as they were, so
that the next one finds what it would have found at first. -/
theorem put : l.Attempted t (t'.put place (Tree.leftBy (t'.get? place) text))
    (done ++ [folder]) := by
  rw [leftBy_eq h hl hdone hfolder htext hplace hfree]
  obtain ⟨above, -, hthere, rfl⟩ := exists_of_locate_entry htext hplace
  rw [h.sources.folders] at hthere
  refine ⟨h.sources.trans (Tree.GainsBuildFiles.put hthere _).toSameSources,
    h.apart.put hthere (h.sources.folders _ ▸ hfree) _,
    fun folder' hfolder' text' place htext' hplace' hfree' => ?_, fun place hkept => ?_⟩
  · rw [Tree.get?_put]
    split
    · next hsame =>
      obtain rfl := eq_of_beq hsame
      have hin : folder' ∈ l.folders := by
        rcases List.mem_append.1 hfolder' with hmem | hmem
        · exact hdone folder' hmem
        · rwa [List.mem_singleton.1 hmem]
      obtain rfl := hl.eq_of_locate_entry hfolder hin hplace hplace'
      rw [htext'.unique htext (l.steady_text t folder)]
    · next hne =>
      have hmem : folder' ∈ done := by
        refine (List.mem_append.1 hfolder').resolve_right fun hmem => hne ?_
        rw [List.mem_singleton.1 hmem] at hplace'
        exact beq_iff_eq.2 (Except.ok.inj (hplace.symm.trans hplace'))
      exact h.written folder' hmem text' place htext' hplace' hfree'
  · have hne : above ++ [BuildFile.fileName] ≠ place := by
      rintro rfl
      rw [hkept folder (by simp) hplace] at hfree
      cases hfree
    rw [Tree.get?_put, if_neg (by simpa using hne)]
    exact h.kept place fun folder' hfolder' => hkept folder' (List.mem_append_left _ hfolder')

end Written

theorem returns_text (h : l.Attempted t t' done) (htext : (l.text t folder).Yields text) :
    (l.text t' folder).Returns text := by
  rw [h.text_eq htext]
  exact htext.returns (l.steady_text t folder)

/-- Trying one more folder, or one of them again. -/
theorem step (h : l.Attempted t t' done) (hl : l.Renders t) (hdone : ∀ p ∈ done, p ∈ l.folders)
    (hfolder : folder ∈ l.folders) : l.Attempted t (l.attempt t' folder) (done ++ [folder]) := by
  obtain ⟨text, htext⟩ := hl.texts folder hfolder
  rcases generate_cases h.apart (h.returns_text htext) with
    ⟨place, hplace, hfree, hreturns⟩ | ⟨hblocked, e, hfails⟩
  · rw [attempt_of_returns hreturns]
    rw [← (h.sources.locate _).ok_iff] at hplace
    exact h.put hl hdone hfolder htext hplace ((h.sources.folders place).trans hfree)
  · rw [attempt_of_fails hfails]
    exact h.skip (mt h.isWritable_iff.2 hblocked)

/-- Trying one folder after the other. -/
theorem attemptAll (h : l.Attempted t t' done) (hl : l.Renders t)
    (hfolders : ∀ p ∈ done ++ rest, p ∈ l.folders) :
    l.Attempted t (l.attemptAll t' rest) (done ++ rest) := by
  induction rest generalizing done t' with
  | nil => rwa [List.append_nil]
  | cons folder rest ih =>
    have hstep := h.step hl (fun p hp => hfolders p (List.mem_append_left _ hp))
      (hfolders folder (by simp))
    rw [List.append_cons] at hfolders ⊢
    exact ih hstep hfolders

/-- The bytes of every file are told by which folders were tried. -/
theorem get?_eq (h : l.Attempted t t' done) (h' : l.Attempted t t'' order) (hl : l.Renders t)
    (hsame : ∀ p, p ∈ done ↔ p ∈ order) (hfolders : ∀ p ∈ done, p ∈ l.folders) (place : Location) :
    t'.get? place = t''.get? place := by
  by_cases hwritten : ∃ folder ∈ done, t.locate (folder.entry BuildFile.fileName) = .ok place ∧
      t.isFolder place = false
  · obtain ⟨folder, hfolder, hplace, hfree⟩ := hwritten
    obtain ⟨text, htext⟩ := hl.texts folder (hfolders folder hfolder)
    rw [h.written folder hfolder text place htext hplace hfree,
      h'.written folder ((hsame folder).1 hfolder) text place htext hplace hfree]
  · have hkept : ∀ folder ∈ done, t.locate (folder.entry BuildFile.fileName) = .ok place →
        t.isFolder place = true := by
      intro folder hfolder hplace
      rw [← Bool.not_eq_false]
      exact fun hfree => hwritten ⟨folder, hfolder, hplace, hfree⟩
    rw [h.kept place hkept, h'.kept place fun folder hfolder =>
      hkept folder ((hsame folder).2 hfolder)]

/-- A step of a run succeeds exactly if the build file can be written. -/
theorem exists_yields_iff (h : l.Attempted t s.tree done) (hl : l.Renders t)
    (hfolder : folder ∈ l.folders) :
    (∃ p s', (Run.writing fun t => l.generate t folder).Yields s p s') ↔ IsWritable t folder := by
  obtain ⟨text, htext⟩ := hl.texts folder hfolder
  rw [← h.isWritable_iff]
  rcases generate_cases h.apart (h.returns_text htext) with
    ⟨place, hplace, hfree, hreturns⟩ | ⟨hblocked, e, hfails⟩
  · obtain ⟨records, hrun⟩ := Run.exists_reading (f := fun t => l.generate t folder) hreturns
    exact iff_of_true ⟨_, _, hrun.then rfl⟩ ⟨place, hplace, hfree⟩
  · refine iff_of_false ?_ hblocked
    rintro ⟨p, s', hyields⟩
    obtain ⟨said, said', hrun⟩ := hyields.writing.1
    obtain ⟨said'', hrun'⟩ := hfails said
    rw [hrun] at hrun'
    cases hrun'

/-- So a run succeeds exactly if all of its build files can be written, which does not depend on
their order. -/
theorem exists_mapM_iff (h : l.Attempted t s.tree done) (hl : l.Renders t)
    (hfolders : ∀ p ∈ done ++ rest, p ∈ l.folders) :
    (∃ written s', (rest.mapM fun folder => Run.writing fun t => l.generate t folder).Yields s
      written s') ↔ ∀ folder ∈ rest, IsWritable t folder := by
  induction rest generalizing done s with
  | nil => exact iff_of_true ⟨[], s, rfl⟩ nofun
  | cons folder rest ih =>
    have hfolder : folder ∈ l.folders := hfolders folder (by simp)
    have hdone : ∀ p ∈ done, p ∈ l.folders := fun p hp => hfolders p (List.mem_append_left _ hp)
    have hnext : ∀ p mid, (Run.writing fun t => l.generate t folder).Yields s p mid →
        l.Attempted t mid.tree (done ++ [folder]) := by
      intro p mid hp
      rw [← attempt_of_yields hp.writing.1]
      exact h.step hl hdone hfolder
    rw [List.append_cons] at hfolders
    rw [List.forall_mem_cons, List.mapM_cons, ← h.exists_yields_iff hl hfolder]
    constructor
    · rintro ⟨written, s', hrun⟩
      obtain ⟨p, mid, hp, hrun⟩ := hrun.bind
      obtain ⟨ps, mid', hps, -⟩ := hrun.bind
      exact ⟨⟨p, mid, hp⟩, (ih (hnext p mid hp) hfolders).1 ⟨ps, mid', hps⟩⟩
    · rintro ⟨⟨p, mid, hp⟩, hrest⟩
      obtain ⟨ps, mid', hps⟩ := (ih (hnext p mid hp) hfolders).2 hrest
      exact ⟨_, _, hp.then (hps.then rfl)⟩

end Attempted

/-! ## Any order -/

/-- A run that succeeds leaves the tree in which each folder was tried. -/
theorem tree_of_mapM {written : List Path}
    (h : (order.mapM fun folder => Run.writing fun t => l.generate t folder).Yields s written s') :
    s'.tree = l.attemptAll s.tree order := by
  induction order generalizing s written with
  | nil =>
    rw [List.mapM_nil] at h
    obtain ⟨-, rfl⟩ := h.pure
    rfl
  | cons folder order ih =>
    rw [List.mapM_cons] at h
    obtain ⟨p, mid, hp, h⟩ := h.bind
    obtain ⟨ps, mid', hps, hpure⟩ := h.bind
    obtain ⟨-, rfl⟩ := hpure.pure
    rw [ih hps, ← attempt_of_yields hp.writing.1]
    rfl

/-- It does not matter in which order the build files are generated, or how often each. Whichever
were generated before, a folder has the same text; all files are left with the bytes that the order
from the deepest folder up leaves; and a run that stops at the first fault comes to its end, with
these bytes, exactly if the one in that order does. -/
theorem attemptAll_of_order (h : l.Renders t) (horder : ∀ p, p ∈ order ↔ p ∈ l.folders) :
    (∀ done, (∀ p ∈ done, p ∈ l.folders) → ∀ folder ∈ l.folders,
      l.text (l.attemptAll t done) folder = l.text t folder) ∧
    (∀ place, (l.attemptAll t order).get? place =
      (l.attemptAll t (l.folders.mergeSort deeperFirst)).get? place) ∧
    ∀ s : Session, s.tree = t →
      ((∃ written s', (order.mapM fun folder => Run.writing fun t => l.generate t folder).Yields s
        written s') ↔ ∃ written s', ((l.folders.mergeSort deeperFirst).mapM fun folder =>
          Run.writing fun t => l.generate t folder).Yields s written s') ∧
      ∀ written s', (order.mapM fun folder => Run.writing fun t => l.generate t folder).Yields s
        written s' → s'.tree = l.attemptAll t order := by
  have hfirst : l.Attempted t t [] := .refl h.proper l
  have hmem : ∀ p ∈ order, p ∈ l.folders := fun p => (horder p).1
  have hsorted : ∀ p ∈ l.folders.mergeSort deeperFirst, p ∈ l.folders := fun p =>
    List.mem_mergeSort.1
  refine ⟨fun done hdone folder hfolder => ?_, fun place => ?_, fun s hs => ⟨?_, ?_⟩⟩
  · obtain ⟨text, htext⟩ := h.texts folder hfolder
    exact (hfirst.attemptAll h hdone).text_eq htext
  · have hafter : l.Attempted t (l.attemptAll t order) order := hfirst.attemptAll h hmem
    have hdeepest := hfirst.attemptAll h hsorted
    refine hafter.get?_eq hdeepest h (fun p => ?_) hmem place
    rw [List.nil_append, List.mem_mergeSort, horder]
  · subst hs
    rw [hfirst.exists_mapM_iff h hmem, hfirst.exists_mapM_iff h hsorted]
    simp only [horder, List.mem_mergeSort]
  · subst hs
    exact fun written s' => tree_of_mapM

/-- A folder of sources in another one. -/
def nestedSources : Tree where
  files := [
    (["w", "src", "y.clj"], "(ns y)".toUTF8),
    (["w", "src", "a", "x.clj"], "(ns a.x)".toUTF8)]

/-- Both folders, which get build files. -/
def nestedLayout : Layout where
  index := { sourceLabels := [("y", "//src:y.clj"), ("a.x", "//src/a:x.clj")] }
  overrides := {}
  settings := {}
  base := ⟨.root, ["w"]⟩
  folders := [⟨.root, ["w", "src", "a"]⟩, ⟨.root, ["w", "src"]⟩]
  ignored := []

/-- The upper folder may come first, and once more at the end. -/
theorem attemptAll_nestedLayout : nestedLayout.Renders nestedSources ∧
    ∀ place, (nestedLayout.attemptAll nestedSources
        [⟨.root, ["w", "src"]⟩, ⟨.root, ["w", "src", "a"]⟩, ⟨.root, ["w", "src"]⟩]).get? place =
      (nestedLayout.attemptAll nestedSources
        (nestedLayout.folders.mergeSort deeperFirst)).get? place := by
  have hrenders : nestedLayout.Renders nestedSources := by
    refine renders_of_isResolved (by decide +kernel) (by simp [nestedLayout, Path.IsResolved]) ?_
    intro folder hfolder
    have hcomes : (nestedLayout.text nestedSources folder).comesTo (fun _ => true) = true := by
      revert folder
      decide +kernel
    obtain ⟨text, htext, -⟩ := Logged.exists_yields _ _ hcomes
    exact ⟨text, htext⟩
  refine ⟨hrenders, (attemptAll_of_order hrenders fun p => ?_).2.1⟩
  simp only [nestedLayout, List.mem_cons, List.not_mem_nil, or_false]
  tauto

end Layout

end Sources

end BuildFiles
