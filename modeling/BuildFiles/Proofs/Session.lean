import BuildFiles.Proofs.Computation

/-!
# What a run keeps

What each step of a run leaves of the session, the whole run leaves of it (`Leaves.bind`,
`Leaves.mapM`). So a run never forgets what is in an archive that it has opened (`Session.Keeps`),
and one whose steps only read leaves the tree as it is (`KeepsTree`). `known_of_index` says that all
archives of an index have been opened when it is there, and `run_logged_bind` that steps that only
say what they do can be taken one by one. A run that `Fails` does so at one of its steps, after what
the steps before it have done.
-/

namespace BuildFiles

/-- A later session knows what the earlier one knows of archives. What the files hold by then does
not matter. -/
def Session.Keeps (s s' : Session) : Prop :=
  ∀ p contents, s.archives.get? p = some contents → s'.archives.get? p = some contents

theorem Session.Keeps.refl (s : Session) : s.Keeps s := fun _ _ h => h

theorem Session.Keeps.trans {s s' s'' : Session} (h : s.Keeps s') (h' : s'.Keeps s'') :
    s.Keeps s'' := fun p contents hp => h' p contents (h p contents hp)

namespace Run

variable {α β : Type} {s s' : Session}

/-- A step comes to a value and to a session. -/
def Yields (x : Run α) (s : Session) (a : α) (s' : Session) : Prop := x.run.run s = (.ok a, s')

/-- A step keeps what is known of archives, also when it fails. -/
def Keeps (x : Run α) : Prop := ∀ s : Session, s.Keeps (x.run.run s).2

/-- What holds of the value that a step comes to. -/
def comesTo (x : Run α) (s : Session) (holds : α → Bool) : Bool :=
  match (x.run.run s).1 with
  | .ok a => holds a
  | .error _ => false

/-- A step whose value passes a test gives a value that does. -/
theorem exists_yields (x : Run α) (s : Session) (holds : α → Bool)
    (h : x.comesTo s holds = true) : ∃ a s', x.Yields s a s' ∧ holds a = true := by
  rw [comesTo] at h
  rcases hx : x.run.run s with ⟨e | a, s'⟩
  · rw [hx] at h
    cases h
  · rw [hx] at h
    exact ⟨a, s', hx, h⟩

/-- A step gives one value and leaves one session. -/
theorem Yields.unique {x : Run α} {a b : α} {s₁ s₂ : Session} (h : x.Yields s a s₁)
    (h' : x.Yields s b s₂) : a = b ∧ s₁ = s₂ := by
  obtain ⟨hsame, rfl⟩ := Prod.mk.inj (h.symm.trans h')
  exact ⟨Except.ok.inj hsame, rfl⟩

/-! ## Steps one by one -/

theorem Yields.pure {a b : α} (h : Yields (pure a) s b s') : b = a ∧ s' = s := by
  cases h
  exact ⟨rfl, rfl⟩

/-- Inversion: the second step starts from the session that the first one leaves. -/
theorem Yields.bind {x : Run α} {f : α → Run β} {b : β} (h : (x >>= f).Yields s b s') :
    ∃ a mid, x.Yields s a mid ∧ (f a).Yields mid b s' := by
  rw [Yields, ExceptT.run_bind, StateT.run_bind] at h
  rcases hx : x.run.run s with ⟨e | a, mid⟩
  · rw [hx] at h
    cases h
  · rw [hx] at h
    exact ⟨a, mid, hx, h⟩

/-- Two steps in a row, the second from where the first ends. -/
theorem Yields.then {x : Run α} {f : α → Run β} {a : α} {b : β} {mid : Session}
    (hx : x.Yields s a mid) (hf : (f a).Yields mid b s') : (x >>= f).Yields s b s' := by
  rw [Yields, ExceptT.run_bind, StateT.run_bind, hx]
  exact hf

/-- What a step keeps of the session, all steps keep, and each tells of its result. -/
theorem Yields.mapM {I : Session → Prop} {R : α → β → Prop} {f : α → Run β}
    (step : ∀ a b s s', I s → (f a).Yields s b s' → I s' ∧ R a b) {l : List α} {bs : List β}
    (hI : I s) (h : (l.mapM f).Yields s bs s') : I s' ∧ List.Forall₂ R l bs := by
  induction l generalizing s bs with
  | nil =>
    rw [List.mapM_nil] at h
    obtain ⟨rfl, rfl⟩ := h.pure
    exact ⟨hI, .nil⟩
  | cons a l ih =>
    rw [List.mapM_cons] at h
    obtain ⟨b, mid, hb, h⟩ := h.bind
    obtain ⟨hmid, hab⟩ := step a b s mid hI hb
    obtain ⟨bs', mid', hbs, h⟩ := h.bind
    obtain ⟨rfl, rfl⟩ := h.pure
    obtain ⟨hs', hl⟩ := ih hmid hbs
    exact ⟨hs', .cons hab hl⟩

/-- How a step that only reads the tree runs: what it says is added to what was said, and nothing
else changes. -/
theorem run_reading (f : Tree → Logged α) (s : Session) :
    (reading f).run.run s =
      (((f s.tree).run.run s.records).1,
        { s with records := ((f s.tree).run.run s.records).2 }) := rfl

/-- What such a step gives is what the tree gives. -/
theorem Yields.reading {f : Tree → Logged α} {a : α} (h : (reading f).Yields s a s') :
    (f s.tree).Yields a ∧ s'.archives = s.archives := by
  rw [Yields, run_reading] at h
  obtain ⟨ha, rfl⟩ := Prod.mk.inj h
  exact ⟨⟨s.records, _, Prod.ext ha rfl⟩, rfl⟩

/-- A step that only reads leaves the session as it is if there is nothing to say. -/
theorem Yields.of_reading {f : Tree → Logged α} {a : α} (h : f s.tree = Logged.of (.ok a)) :
    (Run.reading f).Yields s a s := by
  rw [Yields, run_reading, h]
  rfl

/-- A step that reads the tree changes the records at most. -/
theorem exists_reading {f : Tree → Logged α} {a : α} (h : (f s.tree).Returns a) :
    ∃ records, (reading f).Yields s a { s with records := records } := by
  obtain ⟨records, hrun⟩ := h s.records
  refine ⟨records, ?_⟩
  rw [Yields, run_reading, hrun]

/-- The session that a step leaves is in a relation to the one before, also when the step fails. -/
def Leaves (R : Session → Session → Prop) (x : Run α) : Prop := ∀ s : Session, R s (x.run.run s).2

section Leaves

variable {R : Session → Session → Prop}

/-- What a step leaves in relation is in relation when it gives a value. -/
theorem Leaves.of_yields {x : Run α} (hx : x.Leaves R) {a : α} (h : x.Yields s a s') : R s s' := by
  have hs := hx s
  rwa [h] at hs

/-- A relation that can be composed is left by two steps if each leaves it. -/
theorem Leaves.bind (trans : ∀ s s' s'', R s s' → R s' s'' → R s s'') {x : Run α}
    {f : α → Run β} (hx : x.Leaves R) (hf : ∀ a, (f a).Leaves R) : (x >>= f).Leaves R := by
  intro s
  rw [ExceptT.run_bind, StateT.run_bind]
  have hs := hx s
  rcases hrun : x.run.run s with ⟨e | a, mid⟩
  · rw [hrun] at hs
    exact hs
  · rw [hrun] at hs
    exact trans _ _ _ hs (hf a mid)

/-- Steps for the items of a list leave what each of them leaves. -/
theorem Leaves.mapM (refl : ∀ s, R s s) (trans : ∀ s s' s'', R s s' → R s' s'' → R s s'')
    {f : α → Run β} (hf : ∀ a, (f a).Leaves R) (l : List α) : (l.mapM f).Leaves R := by
  induction l with
  | nil =>
    rw [List.mapM_nil]
    exact refl
  | cons a l ih =>
    rw [List.mapM_cons]
    exact Leaves.bind trans (hf a) fun _ => Leaves.bind trans ih fun _ => refl

end Leaves

/-- A step that keeps what is known keeps it when it gives a value. -/
theorem Keeps.of_yields {x : Run α} (hx : x.Keeps) {a : α} (h : x.Yields s a s') : s.Keeps s' :=
  Leaves.of_yields hx h

theorem Keeps.pure (a : α) : Keeps (pure a : Run α) := fun s => .refl s

/-- Steps that keep what is known do so together. -/
theorem Keeps.bind {x : Run α} {f : α → Run β} (hx : x.Keeps) (hf : ∀ a, (f a).Keeps) :
    (x >>= f).Keeps :=
  Leaves.bind (fun _ _ _ => .trans) hx hf

/-- Steps that keep what is known of archives do so when they are taken for each item of a list. -/
theorem Keeps.mapM {f : α → Run β} (hf : ∀ a, (f a).Keeps) (l : List α) : (l.mapM f).Keeps :=
  Leaves.mapM .refl (fun _ _ _ => .trans) hf l

/-- Reading the tree forgets no archive. -/
theorem Keeps.reading (f : Tree → Logged α) : (reading f).Keeps := fun s => .refl s

theorem Keeps.logged (x : Logged α) : (logged x).Keeps := .reading fun _ => x

/-- A step fails, and leaves a session. -/
def Fails (x : Run α) (s : Session) (e : Fault) (s' : Session) : Prop :=
  x.run.run s = (.error e, s')

theorem Fails.pure {a : α} {e : Fault} (h : Fails (pure a) s e s') : False := by
  cases h

/-- Inversion: a failure of two steps is one of the first, or of the second from where the first
ended. -/
theorem Fails.bind {x : Run α} {f : α → Run β} {e : Fault} (h : (x >>= f).Fails s e s') :
    x.Fails s e s' ∨ ∃ a mid, x.Yields s a mid ∧ (f a).Fails mid e s' := by
  rw [Fails, ExceptT.run_bind, StateT.run_bind] at h
  rcases hx : x.run.run s with ⟨e' | a, mid⟩
  · rw [hx] at h
    obtain ⟨he, rfl⟩ := Prod.mk.inj (show (Except.error e', mid) = (Except.error e, s') from h)
    obtain rfl := Except.error.inj he
    exact .inl hx
  · rw [hx] at h
    exact .inr ⟨a, mid, hx, h⟩

/-- If the first step fails, the session is left as it leaves it. -/
theorem Fails.of_first {x : Run α} {e : Fault} (h : x.Fails s e s') (f : α → Run β) :
    (x >>= f).Fails s e s' := by
  rw [Fails, ExceptT.run_bind, StateT.run_bind, h]
  rfl

/-- If the second step fails, the session is left as that one leaves it. -/
theorem Yields.then_fails {x : Run α} {f : α → Run β} {a : α} {e : Fault} {mid : Session}
    (hx : x.Yields s a mid) (hf : (f a).Fails mid e s') : (x >>= f).Fails s e s' := by
  rw [Fails, ExceptT.run_bind, StateT.run_bind, hx]
  exact hf

/-- Steps for the items of a list fail at one of them, after those before it came to values. -/
theorem Fails.mapM {f : α → Run β} {l : List α} {e : Fault} (h : (l.mapM f).Fails s e s') :
    ∃ done a rest bs mid, l = done ++ a :: rest ∧ (done.mapM f).Yields s bs mid ∧
      (f a).Fails mid e s' := by
  induction l generalizing s with
  | nil =>
    rw [List.mapM_nil] at h
    exact h.pure.elim
  | cons a l ih =>
    rw [List.mapM_cons] at h
    rcases h.bind with hfirst | ⟨b, mid, hb, hrest⟩
    · exact ⟨[], a, l, [], s, rfl, rfl, hfirst⟩
    · rcases hrest.bind with hrest | ⟨bs, mid', -, hpure⟩
      · obtain ⟨done, a', rest, bs, mid', rfl, hdone, hfails⟩ := ih hrest
        refine ⟨a :: done, a', rest, b :: bs, mid', rfl, ?_, hfails⟩
        rw [List.mapM_cons]
        exact hb.then (hdone.then rfl)
      · exact hpure.pure.elim

/-- A step that changes the tree leaves the tree that it computes, and no archive is read. -/
theorem Yields.writing {f : Tree → Logged (Tree × α)} {a : α} (h : (writing f).Yields s a s') :
    (f s.tree).Yields (s'.tree, a) ∧ s'.archives = s.archives := by
  obtain ⟨⟨t, b⟩, mid, hread, hrest⟩ := h.bind
  obtain ⟨hf, harchives⟩ := hread.reading
  cases hrest
  exact ⟨hf, harchives⟩

/-- If such a step fails it has not changed the tree. -/
theorem Fails.writing {f : Tree → Logged (Tree × α)} {e : Fault} (h : (writing f).Fails s e s') :
    (∃ said said', (f s.tree).run.run said = (.error e, said')) ∧ s'.tree = s.tree := by
  rcases h.bind with hread | ⟨⟨t, b⟩, mid, hread, hrest⟩
  · rw [Fails, run_reading] at hread
    obtain ⟨he, rfl⟩ := Prod.mk.inj hread
    exact ⟨⟨s.records, _, Prod.ext he rfl⟩, rfl⟩
  · cases hrest

/-- Resolving starts with nothing known. -/
theorem Yields.resolving {path : Path} {f : Repository → Resolving α} {a : α}
    (h : (resolving path f).Yields s a s') :
    ∃ known', (f ⟨s.tree, path⟩).Yields [] a known' := by
  obtain ⟨⟨said, said', hrun⟩, -⟩ := h.reading
  rcases hf : ((f ⟨s.tree, path⟩).run.run []).run said with ⟨⟨result, known'⟩, said''⟩
  have hpair : (result, said'') = (Except.ok a, said') := by
    rw [← hrun]
    exact (congrArg (fun p => (p.1.1, p.2)) hf).symm
  obtain ⟨rfl, rfl⟩ := Prod.mk.inj hpair
  exact ⟨known', said, _, hf⟩

/-- Two computations run alike if their first steps do, and the rest does from wherever that
leads. -/
theorem run_bind_congr {x y : Run α} {f g : α → Run β} (hx : x.run.run s = y.run.run s)
    (hf : ∀ a mid, y.Yields s a mid → (f a).run.run mid = (g a).run.run mid) :
    (x >>= f).run.run s = (y >>= g).run.run s := by
  rw [ExceptT.run_bind, StateT.run_bind, ExceptT.run_bind, StateT.run_bind, hx]
  rcases hy : y.run.run s with ⟨e | a, mid⟩
  · rfl
  · exact hf a mid hy

/-! ## Archives -/

/-- How an archive is looked up: in what is known, or else in the tree. -/
theorem run_scan (p : Path) (s : Session) :
    (scan p).run.run s = (match s.archives.get? p with
      | some known => (.ok known, s)
      | none => (openArchive p).run.run s) := by
  have hrun : (scan p).run.run s = (match s.archives.get? p with
      | some known => (return known : Run Archive.Contents)
      | none => openArchive p).run.run s := rfl
  rw [hrun]
  cases s.archives.get? p <;> rfl

/-- What is known is not looked up. -/
theorem scan_of_known {p : Path} {contents : Archive.Contents}
    (h : s.archives.get? p = some contents) : (scan p).run.run s = (.ok contents, s) := by
  rw [run_scan, h]

/-- With an archive that is known, the rest just goes on with its contents. -/
theorem run_scan_bind {p : Path} {contents : Archive.Contents} {f : Archive.Contents → Run β}
    (h : s.archives.get? p = some contents) :
    (scan p >>= f).run.run s = (f contents).run.run s := by
  rw [ExceptT.run_bind, StateT.run_bind, scan_of_known h]
  rfl

/-- Opening an archive changes nothing but what has been said. -/
theorem run_openArchive (p : Path) (s : Session) :
    ∃ result records, (openArchive p).run.run s = (result, { s with
      archives := match result with
        | .ok contents => s.archives.insert p contents
        | .error _ => s.archives
      records := records }) := by
  rw [openArchive, ExceptT.run_bind, StateT.run_bind, run_reading]
  rcases (Archive.Contents.ofFile s.tree p).run.run s.records with ⟨e | contents, records⟩
  · exact ⟨.error e, records, rfl⟩
  · exact ⟨.ok contents, records, rfl⟩

/-- An archive is not forgotten when another one is opened. -/
theorem Keeps.scan (p : Path) : (scan p).Keeps := by
  intro s
  rw [run_scan]
  rcases hp : s.archives.get? p with _ | known
  · obtain ⟨result, records, hopen⟩ := run_openArchive p s
    rw [hopen]
    intro p' contents' hp'
    cases result with
    | error e => exact hp'
    | ok contents =>
      have hne : p ≠ p' := by
        rintro rfl
        rw [hp] at hp'
        cases hp'
      exact (Entries.get?_insert ..).trans ((if_neg (by simpa using hne)).trans hp')
  · exact .refl s

/-- An archive was known, or is opened and known from then on. -/
theorem Yields.scan_cases {p : Path} {contents : Archive.Contents}
    (h : (Run.scan p).Yields s contents s') :
    (s.archives.get? p = some contents ∧ s' = s) ∨
      (Archive.Contents.ofFile s.tree p).Yields contents ∧ s'.tree = s.tree ∧
        s'.archives = s.archives.insert p contents := by
  rw [Yields, run_scan] at h
  split at h
  · next known hknown =>
    obtain ⟨hsame, rfl⟩ := Prod.mk.inj h
    exact .inl ⟨hknown.trans (congrArg some (Except.ok.inj hsame)), rfl⟩
  · obtain ⟨contents', mid, hreading, hrest⟩ := Yields.bind h
    obtain ⟨hfile, harchives⟩ := hreading.reading
    rw [Yields, run_reading] at hreading
    obtain ⟨-, rfl⟩ := Prod.mk.inj hreading
    cases hrest
    exact .inr ⟨hfile, rfl, rfl⟩

/-- An archive that was scanned is known from then on. -/
theorem Yields.scan {p : Path} {contents : Archive.Contents} (h : (scan p).Yields s contents s') :
    s'.archives.get? p = some contents := by
  rcases h.scan_cases with ⟨hknown, rfl⟩ | ⟨-, -, harchives⟩
  · exact hknown
  · rw [harchives]
    exact (Entries.get?_insert ..).trans (if_pos (by simp))

/-! ## The archives of an index -/

/-- Scanning a library keeps what is known of the other archives. -/
theorem Keeps.scanLibrary (claim : Path × String) : (scanLibrary claim).Keeps :=
  (Keeps.scan claim.1).bind fun _ => .pure _

/-- A library that was scanned has its archive known, with the contents that it was scanned with. -/
theorem known_of_scanLibrary {claim : Path × String} {x : ScannedLibrary}
    (h : (scanLibrary claim).Yields s x s') : s'.archives.get? x.archive = some x.contents := by
  obtain ⟨contents, mid, hscan, hpure⟩ := h.bind
  obtain ⟨rfl, rfl⟩ := hpure.pure
  exact hscan.scan

/-- The archives of the libraries are all known when they have been gone through. -/
theorem known_of_mapM {claimed : Entries Path String} {scanned : List ScannedLibrary}
    (h : (claimed.mapM scanLibrary).Yields s scanned s') :
    ∀ x ∈ scanned, s'.archives.get? x.archive = some x.contents := by
  induction claimed generalizing s scanned with
  | nil =>
    rw [List.mapM_nil] at h
    obtain ⟨rfl, -⟩ := h.pure
    simp
  | cons claim claimed ih =>
    rw [List.mapM_cons] at h
    obtain ⟨x, mid, hx, hrest⟩ := h.bind
    obtain ⟨xs, mid', hxs, hpure⟩ := hrest.bind
    obtain ⟨rfl, rfl⟩ := hpure.pure
    intro y hy
    rcases List.mem_cons.1 hy with rfl | hy
    · exact (Keeps.mapM Keeps.scanLibrary claimed).of_yields hxs _ _ (known_of_scanLibrary hx)
    · exact ih hxs y hy

/-- An index holds the archives that were opened for it. -/
theorem scanned_of_build {t : Tree} {base : Path} {named : List String} {b : Basis}
    {scanned : List ScannedLibrary} {i : Index}
    (h : (Index.build t base named b scanned).Yields i) : i.scanned = scanned := by
  obtain ⟨labels, -, hrest⟩ := h.bind
  obtain ⟨_, -, hpure⟩ := hrest.bind
  rw [hpure.pure]

/-- When an index is there, what it holds of the archives is known. -/
theorem known_of_index {base : Path} {named : List String} {b : Basis} {i : Index}
    (h : (index base named b).Yields s i s') :
    ∀ x ∈ i.scanned, s'.archives.get? x.archive = some x.contents := by
  obtain ⟨claimed, mid, -, hrest⟩ := h.bind
  obtain ⟨scanned, mid', hscanned, hbuild⟩ := hrest.bind
  obtain ⟨hi, harchives⟩ := hbuild.reading
  rw [scanned_of_build hi, harchives]
  exact known_of_mapM hscanned

/-! ## Steps that leave the tree alone -/

/-- A step leaves the tree as it is, also when it fails. -/
def KeepsTree (x : Run α) : Prop := ∀ s : Session, (x.run.run s).2.tree = s.tree

/-- A step that leaves the tree alone does so when it gives a value. -/
theorem KeepsTree.of_yields {x : Run α} (hx : x.KeepsTree) {a : α} (h : x.Yields s a s') :
    s'.tree = s.tree :=
  Leaves.of_yields (R := fun s s' => s'.tree = s.tree) hx h

/-- A step that leaves the tree alone does so when it fails, too. -/
theorem KeepsTree.of_fails {x : Run α} (hx : x.KeepsTree) {e : Fault} (h : x.Fails s e s') :
    s'.tree = s.tree := by
  have hs := hx s
  rwa [h] at hs

theorem KeepsTree.pure (a : α) : KeepsTree (pure a : Run α) := fun _ => rfl

theorem KeepsTree.throw (e : Fault) : KeepsTree (throw e : Run α) := fun _ => rfl

/-- Steps that leave the tree alone do so together. -/
theorem KeepsTree.bind {x : Run α} {f : α → Run β} (hx : x.KeepsTree)
    (hf : ∀ a, (f a).KeepsTree) : (x >>= f).KeepsTree :=
  Leaves.bind (R := fun s s' => s'.tree = s.tree) (fun _ _ _ h h' => h'.trans h) hx hf

/-- Steps that leave the tree alone do so when they are taken for each item of a list. -/
theorem KeepsTree.mapM {f : α → Run β} (hf : ∀ a, (f a).KeepsTree) (l : List α) :
    (l.mapM f).KeepsTree :=
  Leaves.mapM (R := fun s s' => s'.tree = s.tree) (fun _ => rfl) (fun _ _ _ h h' => h'.trans h) hf l

theorem KeepsTree.reading (f : Tree → Logged α) : (reading f).KeepsTree := fun _ => rfl

theorem KeepsTree.logged (x : Logged α) : (logged x).KeepsTree := .reading fun _ => x

/-- Reading descriptions leaves the tree alone: they are remembered in the session. -/
theorem KeepsTree.resolving (path : Path) (f : Repository → Resolving α) :
    (resolving path f).KeepsTree := .reading _

/-- Scanning an archive leaves the tree alone: what it declares is remembered in the session. -/
theorem KeepsTree.scan (p : Path) : (scan p).KeepsTree := by
  intro s
  rw [run_scan]
  cases s.archives.get? p with
  | some known => rfl
  | none =>
    obtain ⟨result, records, hopen⟩ := run_openArchive p s
    simp only [hopen]

/-- Scanning a library leaves the tree alone, as it scans the archive and says what it met. -/
theorem KeepsTree.scanLibrary (claim : Path × String) : (scanLibrary claim).KeepsTree :=
  (KeepsTree.scan claim.1).bind fun _ => .pure _

/-- Building an index leaves the tree alone, since it scans one library after the other. -/
theorem KeepsTree.index (base : Path) (named : List String) (b : Basis) :
    (index base named b).KeepsTree :=
  (KeepsTree.logged _).bind fun claimed =>
    (KeepsTree.mapM KeepsTree.scanLibrary claimed).bind fun _ => .reading _

/-! ## Steps that only say what they do -/

/-- Steps that only say what they do can be taken together or one by one. -/
theorem run_logged_bind (x : Logged α) (f : α → Logged β) (s : Session) :
    (logged (x >>= f)).run.run s = (logged x >>= fun a => logged (f a)).run.run s := by
  rw [logged, run_reading, ExceptT.run_bind, StateT.run_bind, ExceptT.run_bind, StateT.run_bind,
    logged, run_reading]
  rcases x.run.run s.records with ⟨e | a, records⟩
  · rfl
  · rfl

end Run

end BuildFiles
