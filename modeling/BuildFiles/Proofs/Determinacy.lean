import BuildFiles.Proofs.Inputs
import BuildFiles.Proofs.Session

/-!
# Runs that come to the same again

A session is true if what it knows of archives is what they hold (`Session.IsTrue`), as one that has
just begun and one that has opened archives of its own tree are. A run `Returns` a value for a tree
if it comes to it from every true session over the tree, and leaves the tree as it is and the
session true. An index that was built in a true session is returned by every tree with the same
sources: `Run.returns_index`.
-/

namespace BuildFiles

/-- What the session knows of archives is what its tree holds. -/
def Session.IsTrue (s : Session) : Prop :=
  ∀ p contents, s.archives.get? p = some contents →
    (Archive.Contents.ofFile s.tree p).Yields contents

namespace Session

variable {s s' : Session}

/-- A session that knows no archive knows nothing that is false. -/
theorem isTrue_of_nil (h : s.archives = []) : s.IsTrue := by
  intro p contents hp
  rw [h] at hp
  cases hp

/-- Build files that are written later make nothing of it wrong. -/
theorem IsTrue.of_sameSources (hs : s.IsTrue) (htree : s.tree.SameSources s'.tree)
    (harchives : s'.archives = s.archives) : s'.IsTrue := by
  intro p contents hp
  rw [← Archive.Contents.ofFile_eq htree]
  exact hs p contents (harchives ▸ hp)

/-- It stays true when it gets to know an archive as it is in the tree. -/
theorem IsTrue.insert (hs : s.IsTrue) {p : Path} {contents : Archive.Contents}
    (hp : (Archive.Contents.ofFile s.tree p).Yields contents) (htree : s'.tree = s.tree)
    (harchives : s'.archives = s.archives.insert p contents) : s'.IsTrue := by
  intro p' contents' hp'
  rw [harchives, Entries.get?_insert] at hp'
  rw [htree]
  split at hp'
  · next hsame =>
    obtain rfl := eq_of_beq hsame
    obtain rfl := Option.some.inj hp'
    exact hp
  · exact hs p' contents' hp'

end Session

namespace Run

variable {α β : Type} {s s' : Session} {t : Tree}

/-! ## Steps of a true session -/

/-- A step leaves a true session true, also when it fails. -/
def KeepsTruth (x : Run α) : Prop := ∀ s : Session, s.IsTrue → (x.run.run s).2.IsTrue

/-- A step that keeps a session true does so when it gives a value. -/
theorem KeepsTruth.of_yields {x : Run α} (hx : x.KeepsTruth) {a : α} (hs : s.IsTrue)
    (h : x.Yields s a s') : s'.IsTrue :=
  Leaves.of_yields (R := fun s s' => s.IsTrue → s'.IsTrue) hx h hs

theorem KeepsTruth.pure (a : α) : KeepsTruth (pure a : Run α) := fun _ hs => hs

theorem KeepsTruth.throw (e : Fault) : KeepsTruth (throw e : Run α) := fun _ hs => hs

/-- Two steps keep a session true if each does. -/
theorem KeepsTruth.bind {x : Run α} {f : α → Run β} (hx : x.KeepsTruth)
    (hf : ∀ a, (f a).KeepsTruth) : (x >>= f).KeepsTruth :=
  Leaves.bind (R := fun s s' => s.IsTrue → s'.IsTrue) (fun _ _ _ h h' hs => h' (h hs)) hx hf

/-- Steps that each keep a session true do so when they are taken for each item of a list. -/
theorem KeepsTruth.mapM {f : α → Run β} (hf : ∀ a, (f a).KeepsTruth) (l : List α) :
    (l.mapM f).KeepsTruth :=
  Leaves.mapM (R := fun s s' => s.IsTrue → s'.IsTrue) (fun _ hs => hs)
    (fun _ _ _ h h' hs => h' (h hs)) hf l

theorem KeepsTruth.reading (f : Tree → Logged α) : (reading f).KeepsTruth := fun _ hs => hs

theorem KeepsTruth.logged (x : Logged α) : (logged x).KeepsTruth := .reading fun _ => x

/-- Reading descriptions gets to know no archive. -/
theorem KeepsTruth.resolving (path : Path) (f : Repository → Resolving α) :
    (resolving path f).KeepsTruth := .reading _

/-- An archive is scanned from the tree, and remembered as it was. -/
theorem KeepsTruth.scan (p : Path) : (scan p).KeepsTruth := by
  intro s hs
  rcases hrun : (Run.scan p).run.run s with ⟨e | contents, s'⟩
  · -- an archive that cannot be opened is not known afterwards either
    rw [run_scan] at hrun
    split at hrun
    · cases hrun
    · obtain ⟨result, records, hopen⟩ := run_openArchive p s
      obtain ⟨rfl, rfl⟩ := Prod.mk.inj (hopen.symm.trans hrun)
      exact hs
  · rcases Yields.scan_cases hrun with ⟨-, rfl⟩ | ⟨hfile, htree, harchives⟩
    · exact hs
    · exact hs.insert hfile htree harchives

/-- Scanning a library is no more than that. -/
theorem KeepsTruth.scanLibrary (claim : Path × String) : (scanLibrary claim).KeepsTruth :=
  (KeepsTruth.scan claim.1).bind fun _ => .pure _

/-- Building an index keeps a session true, since it scans one library after the other. -/
theorem KeepsTruth.index (base : Path) (named : List String) (b : Basis) :
    (index base named b).KeepsTruth :=
  (KeepsTruth.logged _).bind fun claimed =>
    (KeepsTruth.mapM KeepsTruth.scanLibrary claimed).bind fun _ => .reading _

/-- What a true session scans is what is in the archive. -/
theorem Yields.ofFile_of_scan {p : Path} {contents : Archive.Contents} (hs : s.IsTrue)
    (h : (Run.scan p).Yields s contents s') :
    (Archive.Contents.ofFile s.tree p).Yields contents := by
  rcases h.scan_cases with ⟨hknown, -⟩ | ⟨hfile, -, -⟩
  · exact hs p contents hknown
  · exact hfile

/-- The archives of the libraries hold what was scanned. -/
theorem forall₂_of_scanLibraries {claimed : Entries Path String} {scanned : List ScannedLibrary}
    (hs : s.IsTrue) (h : (claimed.mapM scanLibrary).Yields s scanned s') :
    List.Forall₂ (fun claim x => (x.archive, x.library) = claim ∧
      (Archive.Contents.ofFile s.tree x.archive).Yields x.contents) claimed scanned := by
  have hstep : ∀ (claim : Path × String) (x : ScannedLibrary) (s₁ s₂ : Session),
      s₁.tree = s.tree ∧ s₁.IsTrue → (Run.scanLibrary claim).Yields s₁ x s₂ →
        (s₂.tree = s.tree ∧ s₂.IsTrue) ∧ (x.archive, x.library) = claim ∧
          (Archive.Contents.ofFile s.tree x.archive).Yields x.contents := by
    rintro claim x s₁ s₂ ⟨htree, hs₁⟩ hx
    have htree₂ := (KeepsTree.scanLibrary claim).of_yields hx
    have hs₂ := (KeepsTruth.scanLibrary claim).of_yields hs₁ hx
    obtain ⟨contents, mid, hscan, hpure⟩ := hx.bind
    obtain ⟨rfl, rfl⟩ := hpure.pure
    refine ⟨⟨htree₂.trans htree, hs₂⟩, rfl, ?_⟩
    rw [← htree]
    exact hscan.ofFile_of_scan hs₁
  exact (Yields.mapM hstep ⟨rfl, hs⟩ h).2

/-! ## What is returned -/

/-- From every true session over the tree the run comes to the value, and it leaves the tree as it
is and the session true. -/
def Returns (x : Run α) (t : Tree) (a : α) : Prop :=
  ∀ s : Session, s.tree = t → s.IsTrue → ∃ s', x.Yields s a s' ∧ s'.tree = t ∧ s'.IsTrue

theorem Returns.pure (t : Tree) (a : α) : Returns (pure a) t a :=
  fun s ht hs => ⟨s, rfl, ht, hs⟩

/-- Two steps return what the second one does from the value of the first. -/
theorem Returns.bind {x : Run α} {f : α → Run β} {a : α} {b : β} (hx : x.Returns t a)
    (hf : (f a).Returns t b) : (x >>= f).Returns t b := by
  intro s ht hs
  obtain ⟨mid, hmid, ht, hs⟩ := hx s ht hs
  obtain ⟨s', hs', ht, hs⟩ := hf mid ht hs
  exact ⟨s', hmid.then hs', ht, hs⟩

/-- A step that returns for each item of a list returns for the list. -/
theorem Returns.mapM {f : α → Run β} {l : List α} {bs : List β}
    (h : List.Forall₂ (fun a b => (f a).Returns t b) l bs) : (l.mapM f).Returns t bs := by
  induction h with
  | nil => exact .pure t []
  | cons hb _ ih =>
    rw [List.mapM_cons]
    exact hb.bind (ih.bind (.pure t _))

/-- Reading returns what is returned from the tree. -/
theorem Returns.reading {f : Tree → Logged α} {a : α} (h : (f t).Returns a) :
    (reading f).Returns t a := by
  rintro s rfl hs
  obtain ⟨records, hrun⟩ := exists_reading h
  exact ⟨_, hrun, rfl, hs⟩

theorem Returns.logged {x : Logged α} {a : α} (h : x.Returns a) (t : Tree) :
    (logged x).Returns t a := .reading h

/-- A step that changes the tree may leave it as it is. -/
theorem Returns.writing {f : Tree → Logged (Tree × α)} {a : α} (h : (f t).Returns (t, a)) :
    (writing f).Returns t a := by
  rintro s rfl hs
  obtain ⟨records, hrun⟩ := exists_reading h
  exact ⟨{ s with records := records }, Yields.then hrun rfl, rfl, hs⟩

/-- Resolving returns what is returned with no description known. -/
theorem Returns.resolving {path : Path} {f : Repository → Resolving α} {a : α} {known : PomCache}
    (h : (f ⟨t, path⟩).Returns [] a known) : (resolving path f).Returns t a := by
  refine .reading fun said => ?_
  obtain ⟨said', hrun⟩ := h said
  have hfirst : ((f ⟨t, path⟩).run.run []).run said >>= (fun r => (Pure.pure (r.1.1, r.2) : Id _)) =
      (Except.ok a, said') := by
    rw [hrun]
    rfl
  exact ⟨said', hfirst⟩

/-- An archive is opened, or what is known of it is what is in it. -/
theorem Returns.scan {p : Path} {contents : Archive.Contents}
    (h : (Archive.Contents.ofFile t p).Yields contents) : (scan p).Returns t contents := by
  rintro s rfl hs
  have hsteady := Archive.Contents.steady_ofFile s.tree p
  rcases hp : s.archives.get? p with _ | known
  · obtain ⟨records, hrun⟩ := exists_reading (f := fun t => Archive.Contents.ofFile t p)
      (h.returns hsteady)
    refine ⟨{ s with archives := s.archives.insert p contents, records := records }, ?_, rfl, ?_⟩
    · rw [Yields, run_scan, hp]
      exact Yields.then hrun rfl
    · exact hs.insert h rfl rfl
  · obtain rfl := (hs p known hp).unique h hsteady
    exact ⟨s, scan_of_known hp, rfl, hs⟩

/-- An index that was built is built again in a tree with the same sources. -/
theorem returns_index {t' : Tree} (hs : s.IsTrue) (hsame : s.tree.SameSources t') {base : Path}
    {named : List String} {b : Basis} {i : Index} (h : (index base named b).Yields s i s') :
    (index base named b).Returns t' i := by
  obtain ⟨claimed, mid, hclaimed, h⟩ := h.bind
  obtain ⟨scanned, mid', hscanned, h⟩ := h.bind
  have htree : mid.tree = s.tree := (KeepsTree.logged _).of_yields hclaimed
  have htree' : mid'.tree = s.tree :=
    ((KeepsTree.mapM KeepsTree.scanLibrary claimed).of_yields hscanned).trans htree
  have hscans : List.Forall₂ (fun claim x => (scanLibrary claim).Returns t' x) claimed scanned := by
    refine (forall₂_of_scanLibraries ((KeepsTruth.logged _).of_yields hs hclaimed) hscanned).imp ?_
    rintro claim x ⟨rfl, hx⟩
    rw [htree, Archive.Contents.ofFile_eq hsame] at hx
    exact (Returns.scan hx).bind (.pure t' _)
  have hbuild : (Index.build t' base named b scanned).Returns i := by
    rw [← Index.build_eq hsame, ← htree']
    exact h.reading.1.returns (Index.steady_build ..)
  exact (Returns.logged (.of hclaimed.reading.1.of) t').bind
    ((Returns.mapM hscans).bind (.reading hbuild))

end Run

end BuildFiles
