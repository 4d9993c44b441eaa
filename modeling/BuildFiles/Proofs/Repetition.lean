import BuildFiles.Proofs.Determinacy
import BuildFiles.Proofs.Pipeline
import BuildFiles.Proofs.Resolution.Repetition
import BuildFiles.Proofs.Sources.Repetition

/-!
# Running again

A run reads the tree that it writes to. What it prepares it prepares again afterwards
(`returns_prepare`), since no build file is read for it, and so it plans the folders that are found
then (`returns_plan`). Whether these are the ones that were found at first depends on the roots: the
run comes to the same list again and leaves all as it is exactly if the folders leave no gap,
`returns_writeSources_iff`. Roots that are apart leave none (`returns_writeSources_of_apart`), but a
root without files that lies deeper in another one does, as in `nestedSession`.
-/

namespace BuildFiles

/-- What was prepared can be read again in the second tree: neither the manifest nor a file that
holds a basis is a build file, and resolution may go through as many levels there as there are
libraries. -/
structure Prepared.IsRepeatable (p : Prepared) (o : Options) (t t' : Tree) : Prop where
  manifest : t.Spares p.manifest.path
  basisFile : ∀ file, Pipeline.resolver? p.configuration o = some (.basisFile file) → t.Spares file
  room : p.basis.libraries.length ≤ (p.manifest.topLevel p.aliases).length + t'.size

theorem Sources.foldersFound_of_sameSources {t t' : Tree} (h : t.SameSources t')
    {roots ignored found : List Path} (hfound : foldersFound t roots ignored = .ok found) :
    foldersFound t' roots ignored = .ok (folders t' roots ignored) := by
  have hhas : t.hasFolder = t'.hasFolder := funext h.hasFolder_eq
  rw [foldersFound, hhas] at hfound
  obtain ⟨_, hroots, -⟩ := Except.bind_eq_ok hfound
  rw [foldersFound, hroots]
  rfl

namespace Pipeline

variable {o : Options} {s s' : Session} {t' : Tree}

/-! ## Sessions stay true -/

theorem keepsTruth_load (o : Options) : (load o).KeepsTruth :=
  (Run.KeepsTruth.reading _).bind fun _ => (Run.KeepsTruth.reading _).bind fun _ => .pure _

theorem keepsTruth_resolve (chosen : Option Resolver) (m : Manifest) (aliases : List String) :
    (resolve chosen m aliases).KeepsTruth := by
  rcases chosen with _ | file | path
  · exact .throw _
  · exact .reading _
  · exact (Run.KeepsTruth.logged _).bind fun _ => .resolving _ _

theorem keepsTruth_prepare (o : Options) : (prepare o none).KeepsTruth :=
  (keepsTruth_load o).bind fun _ => (Run.KeepsTruth.logged _).bind fun _ =>
    (Run.KeepsTruth.logged _).bind fun _ => (Run.KeepsTruth.logged _).bind fun _ =>
      (keepsTruth_resolve _ _ _).bind fun _ => (Run.KeepsTruth.logged _).bind fun _ =>
        (Run.KeepsTruth.index _ _ _).bind fun _ => .pure _

theorem keepsTruth_plan (o : Options) : (plan o).KeepsTruth :=
  (keepsTruth_prepare o).bind fun _ => (Run.KeepsTruth.logged _).bind fun _ =>
    (Run.KeepsTruth.logged _).bind fun _ => (Run.KeepsTruth.reading _).bind fun _ => .pure _

/-- After a run that succeeds, what the session knows of archives is still what they hold. -/
theorem isTrue_of_writeSources {written : List Path} (ht : s.tree.IsProper) (hs : s.IsTrue)
    (h : (writeSources o).Yields s written s') : s'.IsTrue := by
  obtain ⟨roots, l, mid, hplan, hgenerated, -, harchives⟩ := generated_of_writeSources ht h
  refine ((keepsTruth_plan o).of_yields hs hplan).of_sameSources ?_ harchives
  rw [(keepsTree_plan o).of_yields hplan]
  exact hgenerated.sources.toSameSources

/-! ## Preparing again -/

theorem returns_load {loaded : Manifest × Configuration} (hsame : s.tree.SameSources t')
    (hspares : s.tree.Spares loaded.1.path) (h : (load o).Yields s loaded s') :
    (load o).Returns t' loaded := by
  obtain ⟨m, mid, hm, h⟩ := h.bind
  obtain ⟨c, mid', hc, h⟩ := h.bind
  obtain ⟨rfl, -⟩ := h.pure
  have hmid : mid.tree = s.tree := (Run.KeepsTree.reading _).of_yields hm
  have hmanifest := Manifest.ofFile_eq_ok hsame hm.reading.1.of hspares
  have hconfiguration := Configuration.ofFile_eq_ok hsame (hmid ▸ hc.reading.1.of)
  exact (Run.Returns.reading (.of hmanifest)).bind
    ((Run.Returns.reading (.of hconfiguration)).bind (.pure _ _))

/-- A resolution that gave a basis gives it again after build files have been added. Neither the
basis file nor a description is a build file, and the fuel is enough if the tree has not become
smaller. -/
theorem returns_resolve {chosen : Option Resolver} {m : Manifest} {aliases : List String}
    {b : Basis} (hgains : s.tree.GainsBuildFiles t')
    (hfile : ∀ file, chosen = some (.basisFile file) → s.tree.Spares file)
    (hroom : b.libraries.length ≤ (m.topLevel aliases).length + t'.size)
    (h : (resolve chosen m aliases).Yields s b s') : (resolve chosen m aliases).Returns t' b := by
  rcases chosen with _ | file | path
  · cases h
  · obtain ⟨hb, -⟩ := Run.Yields.reading (f := fun t => BasisFile.resolve t file m aliases) h
    exact Run.Returns.reading (f := fun t => BasisFile.resolve t file m aliases)
      (BasisFile.returns_resolve hgains.toSameSources (hfile file rfl) hb)
  · obtain ⟨settled, mid, hsettled, h⟩ := h.bind
    obtain ⟨known, hresolve⟩ := h.resolving
    obtain ⟨⟨progress, b'⟩, known', hwithin, hpure⟩ := hresolve.bind
    obtain ⟨rfl, rfl⟩ := hpure.pure
    have hmid : mid.tree = s.tree := (Run.KeepsTree.logged _).of_yields hsettled
    rw [hmid] at hwithin
    have hrepository : Repository.Gains ⟨s.tree, settled⟩ ⟨t', settled⟩ := ⟨rfl, hgains⟩
    have hresolve' : (Resolution.resolve ⟨t', settled⟩ m aliases).Returns [] b known :=
      (Resolution.returns_within hrepository hwithin hroom).bind (.pure _ _)
    exact (Run.Returns.logged (.of hsettled.reading.1.of) t').bind (.resolving hresolve')

theorem loaded_of_assemble {loaded : Manifest × Configuration} {settings : Settings}
    {aliases : List String} {chosen : Option Resolver} {p : Prepared}
    (h : (assemble loaded settings aliases chosen).Yields s p s') :
    p.manifest = loaded.1 ∧ p.configuration = loaded.2 := by
  obtain ⟨b, s₁, -, h⟩ := h.bind
  obtain ⟨_, s₂, -, h⟩ := h.bind
  obtain ⟨i, s₃, -, h⟩ := h.bind
  obtain ⟨rfl, -⟩ := h.pure
  exact ⟨rfl, rfl⟩

theorem returns_assemble {loaded : Manifest × Configuration} {settings : Settings}
    {aliases : List String} {chosen : Option Resolver} {p : Prepared} (hs : s.IsTrue)
    (hgains : s.tree.GainsBuildFiles t')
    (hfile : ∀ file, chosen = some (.basisFile file) → s.tree.Spares file)
    (hroom : p.basis.libraries.length ≤ (p.manifest.topLevel p.aliases).length + t'.size)
    (h : (assemble loaded settings aliases chosen).Yields s p s') :
    (assemble loaded settings aliases chosen).Returns t' p := by
  obtain ⟨b, s₁, hbasis, h⟩ := h.bind
  obtain ⟨_, s₂, hsay, h⟩ := h.bind
  obtain ⟨i, s₃, hindex, h⟩ := h.bind
  obtain ⟨rfl, -⟩ := h.pure
  have htree : s₂.tree = s.tree := by
    rw [(Run.KeepsTree.logged _).of_yields hsay, (keepsTree_resolve _ _ _).of_yields hbasis]
  have hs₁ : s₁.IsTrue := (keepsTruth_resolve _ _ _).of_yields hs hbasis
  have hs₂ : s₂.IsTrue := (Run.KeepsTruth.logged _).of_yields hs₁ hsay
  have hindex' := Run.returns_index hs₂ (htree ▸ hgains.toSameSources) hindex
  exact (returns_resolve hgains hfile hroom hbasis).bind
    ((Run.Returns.logged (.say _) t').bind (hindex'.bind (.pure t' _)))

theorem returns_sayResolver (chosen : Option Resolver) : (sayResolver chosen).Returns () := by
  rcases chosen with _ | file | path
  · exact .pure ()
  · exact .say _
  · exact .say _

/-- What was prepared is prepared again in a tree that gained build files. -/
theorem returns_prepare {p : Prepared} (hs : s.IsTrue) (hgains : s.tree.GainsBuildFiles t')
    (hp : p.IsRepeatable o s.tree t') (h : (prepare o none).Yields s p s') :
    (prepare o none).Returns t' p := by
  rw [prepare_eq] at h ⊢
  obtain ⟨loaded, s₁, hload, h⟩ := h.bind
  obtain ⟨settings, s₂, hsettings, h⟩ := h.bind
  obtain ⟨_, s₃, hloaded, h⟩ := h.bind
  obtain ⟨_, s₄, hresolver, h⟩ := h.bind
  have htree : s₄.tree = s.tree := by
    rw [(Run.KeepsTree.logged _).of_yields hresolver, (Run.KeepsTree.logged _).of_yields hloaded,
      (Run.KeepsTree.logged _).of_yields hsettings, (keepsTree_load o).of_yields hload]
  have hs₁ : s₁.IsTrue := (keepsTruth_load o).of_yields hs hload
  have hs₂ : s₂.IsTrue := (Run.KeepsTruth.logged _).of_yields hs₁ hsettings
  have hs₃ : s₃.IsTrue := (Run.KeepsTruth.logged _).of_yields hs₂ hloaded
  have hs₄ : s₄.IsTrue := (Run.KeepsTruth.logged _).of_yields hs₃ hresolver
  obtain ⟨hmanifest, hconfiguration⟩ := loaded_of_assemble h
  have hload' := returns_load hgains.toSameSources (hmanifest ▸ hp.manifest) hload
  have hassemble := returns_assemble hs₄ (htree ▸ hgains) (htree ▸ hconfiguration ▸ hp.basisFile)
    hp.room h
  exact hload'.bind ((Run.Returns.logged (.of hsettings.reading.1.of) t').bind
    ((Run.Returns.logged (.say _) t').bind
      ((Run.Returns.logged (returns_sayResolver _) t').bind hassemble)))

/-- What is planned again are the folders that are found then; everything that goes before, from the
manifest to the index, is the same, as no build file is read for it. -/
theorem returns_plan {p : Prepared} {mid : Session} {roots : List Path} {l : Sources.Layout}
    (hs : s.IsTrue) (hgains : s.tree.GainsBuildFiles t')
    (hprepare : (prepare o none).Yields s p mid) (hp : p.IsRepeatable o s.tree t')
    (h : (plan o).Yields s (roots, l) s') :
    (plan o).Returns t' (roots, { l with folders := Sources.folders t' roots l.ignored }) := by
  obtain ⟨p', s₁, hprepare', h⟩ := h.bind
  obtain ⟨rfl, rfl⟩ := hprepare.unique hprepare'
  obtain ⟨ignored, s₂, hignored, h⟩ := h.bind
  obtain ⟨_, s₃, hnotes, h⟩ := h.bind
  obtain ⟨found, s₄, hfound, h⟩ := h.bind
  obtain ⟨hpair, -⟩ := h.pure
  obtain ⟨rfl, rfl⟩ := Prod.mk.inj hpair
  have htree : s₃.tree = s.tree := by
    rw [(Run.KeepsTree.logged _).of_yields hnotes, (Run.KeepsTree.logged _).of_yields hignored,
      (keepsTree_prepare o).of_yields hprepare]
  have hfound' := Sources.foldersFound_of_sameSources (htree ▸ hgains.toSameSources)
    hfound.reading.1.of
  exact (returns_prepare hs hgains hp hprepare).bind
    ((Run.Returns.logged (.of hignored.reading.1.of) t').bind
      ((Run.Returns.logged (.sayAll _) t').bind
        ((Run.Returns.reading (.of hfound')).bind (.pure t' _))))

/-! ## Running again -/

section Again

variable {p : Prepared} {mid mid' : Session} {written roots : List Path} {l : Sources.Layout}
  (ht : s.tree.IsProper) (hs : s.IsTrue) (hprepare : (prepare o none).Yields s p mid)
  (hp : p.IsRepeatable o s.tree s'.tree) (h : (writeSources o).Yields s written s')
  (hplan : (plan o).Yields s (roots, l) mid')
include ht hs hprepare hp h hplan

/-- A run comes to the same list again and leaves the tree as it is, if the folders that are found
then are the ones that were planned. -/
theorem returns_writeSources_of_folders
    (hfolders : Sources.folders s'.tree roots l.ignored = l.folders) :
    (writeSources o).Returns s'.tree written := by
  obtain ⟨roots', l', s₁, hplan', hgenerated, rfl, -⟩ := generated_of_writeSources ht h
  obtain ⟨hsame, -⟩ := hplan.unique hplan'
  obtain ⟨rfl, rfl⟩ := Prod.mk.inj hsame
  have hagain := returns_plan hs hgenerated.sources hprepare hp hplan
  have heta : { l with folders := l.folders } = l := rfl
  rw [hfolders, heta] at hagain
  have hloop : (l.folders.mapM fun folder =>
      Run.writing fun t => l.generate t folder).Returns s'.tree
        (l.folders.map fun folder => folder.entry BuildFile.fileName) := by
    refine .mapM ?_
    rw [List.forall₂_map_right_iff, List.forall₂_same]
    intro folder hfolder
    obtain ⟨hanchor, hthere⟩ := placed_of_plan ht hplan folder hfolder
    exact .writing (hgenerated.returns_generate hfolder hanchor hthere)
  rw [writeSources_eq]
  exact hagain.bind (hloop.bind ((Run.Returns.logged (.say _) s'.tree).bind (.pure s'.tree _)))

/-- Otherwise the list is another one. -/
theorem folders_of_returns_writeSources (hreturns : (writeSources o).Returns s'.tree written) :
    Sources.folders s'.tree roots l.ignored = l.folders := by
  obtain ⟨roots', l', s₁, hplan', hgenerated, rfl, -⟩ := generated_of_writeSources ht h
  obtain ⟨hsame, -⟩ := hplan.unique hplan'
  obtain ⟨rfl, rfl⟩ := Prod.mk.inj hsame
  have hs' := isTrue_of_writeSources ht hs h
  obtain ⟨s₂, hrun, -⟩ := hreturns s' rfl hs'
  obtain ⟨s₃, hagain, -⟩ := returns_plan hs hgenerated.sources hprepare hp hplan s' rfl hs'
  rw [writeSources_eq] at hrun
  obtain ⟨⟨roots', l'⟩, s₄, hplan', hrun⟩ := hrun.bind
  obtain ⟨hsame, -⟩ := hagain.unique hplan'
  obtain ⟨rfl, rfl⟩ := Prod.mk.inj hsame
  obtain ⟨written, s₅, hloop, hrun⟩ := hrun.bind
  obtain ⟨_, s₆, -, hrun⟩ := hrun.bind
  have hentries := (Sources.Layout.entries_of_mapM hloop).symm.trans hrun.pure.1.symm
  simpa [Function.comp_def] using congrArg (List.map Path.parent) hentries

/-- A project of which no root of sources lies in another one can be run again. -/
theorem returns_writeSources_of_apart (hapart : ∀ root ∈ roots, ∀ root' ∈ roots,
    root.isWithin root' = true → root = root') : (writeSources o).Returns s'.tree written := by
  obtain ⟨roots', l', s₁, hplan', hgenerated, -, -⟩ := generated_of_writeSources ht h
  obtain ⟨hsame, -⟩ := hplan.unique hplan'
  obtain ⟨rfl, rfl⟩ := Prod.mk.inj hsame
  obtain ⟨hroots, hfolders⟩ := folders_of_plan hplan
  refine returns_writeSources_of_folders ht hs hprepare hp h hplan ?_
  rw [hfolders]
  exact (Sources.folders_eq_iff ht hroots (hfolders ▸ hgenerated)).2
    (Sources.isGapless_of_apart ht hroots hapart)

end Again

/-- A run that succeeded comes to the same list again and leaves the tree as it is, exactly if no
folder without a build file is between two with one. -/
theorem returns_writeSources_iff {p : Prepared} {mid : Session} {written : List Path}
    (ht : s.tree.IsProper) (hs : s.IsTrue) (hprepare : (prepare o none).Yields s p mid)
    (hp : p.IsRepeatable o s.tree s'.tree) (h : (writeSources o).Yields s written s') :
    (writeSources o).Returns s'.tree written ↔ Sources.IsGapless (written.map Path.parent) := by
  obtain ⟨roots, l, mid', hplan, hgenerated, hwritten, -⟩ := generated_of_writeSources ht h
  obtain ⟨hroots, hfolders⟩ := folders_of_plan hplan
  have hparents : written.map Path.parent = l.folders := by
    rw [hwritten, List.map_map]
    exact List.map_id'' (fun folder => Path.parent_entry folder _) _
  have hiff : Sources.folders s'.tree roots l.ignored = l.folders ↔
      Sources.IsGapless l.folders := by
    rw [hfolders]
    exact Sources.folders_eq_iff ht hroots (hfolders ▸ hgenerated)
  rw [hparents, ← hiff]
  constructor
  · exact folders_of_returns_writeSources ht hs hprepare hp h hplan
  · exact returns_writeSources_of_folders ht hs hprepare hp h hplan

/-- A project with a root of sources that holds no file and lies deeper in another one. -/
def nestedSession : Session where
  tree.files := [
    (["w", "deps.edn"], "\x7b:paths [\"src/a/b\" \"src\"]\x7d".toUTF8),
    (["w", "src", "x.clj"], "(ns x)".toUTF8)]
  tree.folders := [["w", "src", "a", "b"]]

/-- The options of a run on the project. -/
def nestedOptions : Options where
  manifest := .parse "/w"
  repository := some (.parse "/m2")

/-- The roots of the project, which get the build files. -/
def nestedRoots : List Path := [⟨.root, ["w", "src", "a", "b"]⟩, ⟨.root, ["w", "src"]⟩]

/-- What is prepared has the two roots and no libraries, and generating the two build files
succeeds. -/
def succeedsAtRoots : Except Fault Prepared × Session → Bool
  | (.ok p, mid) =>
    p.basis.sourceEntries.map (·.path) == nestedRoots && p.manifest.overrides.ignore == [] &&
      p.manifest.path == ⟨.root, ["w", "deps.edn"]⟩ && p.basis.libraries.isEmpty &&
      (match resolver? p.configuration nestedOptions with
        | some (.repository _) => true
        | _ => false) &&
      match (nestedRoots.mapM fun folder => Run.writing fun t =>
        Sources.Layout.generate { p.sources with folders := nestedRoots, ignored := [] } t
          folder).run.run mid with
      | (.ok _, _) => true
      | _ => false
  | _ => false

theorem succeedsAtRoots_of_prepare :
    succeedsAtRoots ((prepare nestedOptions none).run.run nestedSession) = true := by
  decide +kernel

theorem foldersFound_nestedRoots :
    Sources.foldersFound nestedSession.tree nestedRoots [] = .ok nestedRoots := by
  have hfound : ∀ root ∈ nestedRoots, ∃ there, nestedSession.tree.hasFolder root = .ok there := by
    simp only [nestedRoots, List.forall_mem_cons]
    exact ⟨⟨true, by with_unfolding_all rfl⟩, ⟨true, by with_unfolding_all rfl⟩,
      List.forall_mem_nil _⟩
  have hfolders : (nestedRoots.flatMap (Sources.foldersOf nestedSession.tree [])).eraseDups =
      nestedRoots := by
    decide +kernel
  rw [Sources.foldersFound_of_hasFolder hfound, Sources.folders, hfolders,
    List.mergeSort_of_pairwise (by decide)]

theorem not_isGapless_nestedRoots : ¬ Sources.IsGapless nestedRoots := by
  intro hgapless
  have hmem : Path.mk .root ["w", "src", "a"] ∈ nestedRoots :=
    hgapless ⟨.root, ["w", "src", "a", "b"]⟩ (by decide) ⟨.root, ["w", "src"]⟩ (by decide) _
      (by decide) (by decide)
  revert hmem
  decide

/-- A run on the project succeeds, and does not come to the same list again. -/
theorem not_returns_of_nestedSession : ∃ p mid written s', nestedSession.tree.IsProper ∧
    nestedSession.IsTrue ∧ (prepare nestedOptions none).Yields nestedSession p mid ∧
    p.IsRepeatable nestedOptions nestedSession.tree s'.tree ∧
    (writeSources nestedOptions).Yields nestedSession written s' ∧
    ¬ (writeSources nestedOptions).Returns s'.tree written := by
  have hprepare := succeedsAtRoots_of_prepare
  rcases hrun : (prepare nestedOptions none).run.run nestedSession with ⟨e | p, mid⟩
  · rw [hrun] at hprepare
    cases hprepare
  rw [hrun] at hprepare
  simp only [succeedsAtRoots, Bool.and_eq_true, beq_iff_eq] at hprepare
  obtain ⟨⟨⟨⟨⟨hentries, hignore⟩, hpath⟩, hlibraries⟩, hresolver⟩, hloop⟩ := hprepare
  split at hloop
  · next written s' hwritten =>
    have hroots : Sources.roots (p.basis.sourceEntries.map (·.path)) [] = nestedRoots := by
      rw [hentries]
      decide +kernel
    have hplan := plan_of_prepare hrun hignore (by rw [hroots]; exact foldersFound_nestedRoots)
    obtain ⟨s'', hyields⟩ :
        ∃ s'', (writeSources nestedOptions).Yields nestedSession written s'' := by
      rw [writeSources_eq]
      exact ⟨_, hplan.then (Run.Yields.then hwritten (Run.Yields.then (a := ()) rfl rfl))⟩
    have hproper : nestedSession.tree.IsProper := by decide +kernel
    have htrue : nestedSession.IsTrue := Session.isTrue_of_nil rfl
    have hrepeatable : p.IsRepeatable nestedOptions nestedSession.tree s''.tree := by
      refine ⟨Tree.spares_of_name (by rw [hpath]; decide) _, fun file hfile => ?_, ?_⟩
      · rw [hfile] at hresolver
        cases hresolver
      · rw [List.isEmpty_iff.1 hlibraries]
        exact Nat.zero_le _
    refine ⟨p, mid, written, s'', hproper, htrue, hrun, hrepeatable, hyields, fun hreturns => ?_⟩
    have hgapless := (returns_writeSources_iff hproper htrue hrun hrepeatable hyields).1 hreturns
    rw [Sources.Layout.entries_of_mapM hwritten] at hgapless
    exact not_isGapless_nestedRoots hgapless
  · cases hloop

end Pipeline

end BuildFiles
