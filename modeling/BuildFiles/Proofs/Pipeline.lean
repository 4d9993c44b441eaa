import BuildFiles.Pipeline
import BuildFiles.Proofs.Manifest.Aliases
import BuildFiles.Proofs.Resolution.Completion
import BuildFiles.Proofs.Sources.Generation

/-!
# Runs that generate sources

A run plans before it generates anything, and planning leaves the tree as it is: `writeSources_eq`,
`keepsTree_plan`. What is planned are the folders that are found from settled roots
(`folders_of_plan`), and a run that succeeds has generated the build files of all of them
(`generated_of_writeSources`). A run that fails leaves the build files of the folders before the one
where it stops whole, and touches nothing else: `stopsAt_of_fails`.
-/

namespace BuildFiles

namespace Pipeline

/-- Loading the manifest changes no file. -/
theorem keepsTree_load (o : Options) : (load o).KeepsTree :=
  (Run.KeepsTree.reading _).bind fun _ => (Run.KeepsTree.reading _).bind fun _ => .pure _

/-- Nor does resolving the libraries, with either resolver. -/
theorem keepsTree_resolve (chosen : Option Resolver) (m : Manifest) (aliases : List String) :
    (resolve chosen m aliases).KeepsTree := by
  rcases chosen with _ | file | path
  · exact .throw _
  · exact .reading _
  · exact (Run.KeepsTree.logged _).bind fun _ => .resolving _ _

/-- Resolve and index what is loaded. -/
def assemble (loaded : Manifest × Configuration) (settings : Settings) (aliases : List String)
    (chosen : Option Resolver) : Run Prepared := do
  let basis ← resolve chosen loaded.1 aliases
  Run.logged <| Logged.debug "orchestrator"
    s!"Resolved {basis.sourceEntries.length} source paths and {basis.libraries.length} libraries"
  let index ← Run.index loaded.1.folder loaded.1.overrides.noAot basis
  return ⟨loaded.1, loaded.2, settings, aliases, basis, index⟩

/-- What is said about what is loaded. -/
def sayLoaded (loaded : Manifest × Configuration) (o : Options) : Logged Unit := do
  let aliases := aliases loaded.2 o
  let shownAliases := if aliases.isEmpty then "none" else commaSeparated aliases
  Logged.info "orchestrator" s!"Loaded {loaded.1.path} (aliases: {shownAliases})"

/-- The preparation in four steps: the manifest is loaded, the settings are read, what was loaded is
told, and the rest is put together. -/
theorem prepare_eq (o : Options) : prepare o none = (do
    let loaded ← load o
    let settings ← Run.logged (Logged.of (settings loaded.2 o))
    Run.logged (sayLoaded loaded o)
    Run.logged (sayResolver (resolver? loaded.2 o))
    assemble loaded settings (aliases loaded.2 o) (resolver? loaded.2 o)) := rfl

/-- None of them changes a file. -/
theorem keepsTree_prepare (o : Options) : (prepare o none).KeepsTree :=
  (keepsTree_load o).bind fun _ => (Run.KeepsTree.logged _).bind fun _ =>
    (Run.KeepsTree.logged _).bind fun _ => (Run.KeepsTree.logged _).bind fun _ =>
      (keepsTree_resolve _ _ _).bind fun _ => (Run.KeepsTree.logged _).bind fun _ =>
        (Run.KeepsTree.index _ _ _).bind fun _ => .pure _

/-- The roots of sources, and the layout of what is generated below them. -/
def plan (o : Options) : Run (List Path × Sources.Layout) := do
  let p ← prepare o none
  let ignored ← Run.logged <| Logged.of <|
    Sources.ignoredPaths p.manifest.folder p.manifest.overrides.ignore
  let entries := p.basis.sourceEntries.map (·.path)
  Run.logged ((Sources.ignoredNotes entries ignored).forM Logged.say)
  let roots := Sources.roots entries ignored
  let folders ← Run.reading fun t => Logged.of (Sources.foldersFound t roots ignored)
  return (roots, { Prepared.sources p with folders, ignored })

/-- A run in two steps: the plan, and one build file after the other. -/
theorem writeSources_eq (o : Options) : writeSources o = (do
    let (roots, layout) ← plan o
    let written ← layout.folders.mapM fun folder => Run.writing fun t => layout.generate t folder
    Run.logged <| Logged.info "srcs"
      s!"Generated {written.length} BUILD files under {roots.length} source paths"
    return written) := by
  simp only [writeSources, plan, bind_assoc, pure_bind]

/-! ## Roots are settled -/

/-- The sources of a manifest are looked for at resolved paths. -/
theorem isResolved_of_sourceEntries {m : Manifest} {aliases : List String}
    {es : List ClasspathEntry} (h : m.sourceEntries aliases = .ok es) :
    ∀ e ∈ es, e.path.IsResolved := by
  intro e he
  obtain ⟨p, -, hpath⟩ := exists_left_of_forall₂ (Manifest.forall₂_of_sourceEntries h) he
  exact Tree.isResolved_of_resolved hpath

/-- All that a basis file lists has a resolved path as well: each entry of its classpath is resolved
against the folder of the manifest. -/
theorem isResolved_of_basisFile {t : Tree} {file : Path} {m : Manifest} {aliases : List String}
    {b : Basis} (h : (BasisFile.resolve t file m aliases).Yields b) :
    ∀ e ∈ b.classpath, e.path.IsResolved := by
  obtain ⟨es, -, h⟩ := h.bind
  obtain ⟨classpath, hclasspath, h⟩ := h.bind
  obtain ⟨trace, -, h⟩ := h.bind
  obtain ⟨_, -, h⟩ := h.bind
  obtain ⟨_, -, h⟩ := h.bind
  obtain ⟨paths, -, h⟩ := h.bind
  obtain ⟨repositories, -, h⟩ := h.bind
  rw [h.pure]
  obtain ⟨items, -, hentries⟩ := Except.bind_eq_ok hclasspath.of
  intro e he
  obtain ⟨d, -, hentry⟩ := exists_left_of_forall₂ (Except.forall₂_of_mapM hentries) he
  rw [BasisFile.entry] at hentry
  split at hentry
  · obtain ⟨path, hpath, hentry⟩ := Except.bind_eq_ok hentry
    have hresolved := Tree.isResolved_of_resolved hpath
    split at hentry <;> (obtain rfl := Except.ok.inj hentry; exact hresolved)
  · cases hentry

variable {o : Options} {s s' : Session} {roots : List Path} {l : Sources.Layout}

/-- Whatever the resolver, the sources of the basis have resolved paths. -/
theorem isResolved_of_resolve {chosen : Option Resolver} {m : Manifest} {aliases : List String}
    {b : Basis} (h : (resolve chosen m aliases).Yields s b s') :
    ∀ e ∈ b.sourceEntries, e.path.IsResolved := by
  rcases chosen with _ | file | path
  · cases h
  · obtain ⟨hfile, -⟩ := Run.Yields.reading (f := fun t => BasisFile.resolve t file m aliases) h
    exact fun e he => isResolved_of_basisFile hfile e (List.mem_of_mem_filter he)
  · obtain ⟨settled, mid, -, hresolving⟩ := h.bind
    obtain ⟨known, hresolve⟩ := hresolving.resolving
    obtain ⟨⟨progress, b'⟩, mid', hwithin, hpure⟩ := hresolve.bind
    obtain ⟨rfl, -⟩ := hpure.pure
    exact isResolved_of_sourceEntries (Resolution.sourceEntries_of_within hwithin)

/-- The sources of the basis that was prepared have resolved paths, be it read or resolved. -/
theorem basis_of_prepare {p : Prepared} (h : (prepare o none).Yields s p s') :
    ∀ e ∈ p.basis.sourceEntries, e.path.IsResolved := by
  rw [prepare_eq] at h
  obtain ⟨loaded, _, -, h⟩ := h.bind
  obtain ⟨settings, _, -, h⟩ := h.bind
  obtain ⟨_, _, -, h⟩ := h.bind
  obtain ⟨_, _, -, h⟩ := h.bind
  obtain ⟨basis, _, hbasis, h⟩ := h.bind
  obtain ⟨_, _, -, h⟩ := h.bind
  obtain ⟨index, _, -, h⟩ := h.bind
  obtain ⟨rfl, -⟩ := h.pure
  exact isResolved_of_resolve hbasis

/-- Planning changes no file. -/
theorem keepsTree_plan (o : Options) : (plan o).KeepsTree :=
  (keepsTree_prepare o).bind fun _ => (Run.KeepsTree.logged _).bind fun _ =>
    (Run.KeepsTree.logged _).bind fun _ => (Run.KeepsTree.reading _).bind fun _ => .pure _

/-- What is planned are the folders that are found from settled roots. -/
theorem folders_of_plan (h : (plan o).Yields s (roots, l) s') :
    (∀ root ∈ roots, root.IsResolved) ∧ l.folders = Sources.folders s.tree roots l.ignored := by
  obtain ⟨p, prepared, hprepare, h⟩ := h.bind
  obtain ⟨ignored, told, hignored, h⟩ := h.bind
  obtain ⟨_, noted, hnotes, h⟩ := h.bind
  obtain ⟨folders, _, hfolders, hpure⟩ := h.bind
  obtain ⟨hpair, -⟩ := hpure.pure
  obtain ⟨rfl, rfl⟩ := Prod.mk.inj hpair
  have htree : noted.tree = s.tree := by
    rw [(Run.KeepsTree.logged _).of_yields hnotes, (Run.KeepsTree.logged _).of_yields hignored,
      (keepsTree_prepare o).of_yields hprepare]
  constructor
  · exact Sources.isResolved_of_mem_roots (basis_of_prepare hprepare)
  · rw [← htree]
    exact Sources.foldersFound_eq_ok hfolders.reading.1.of

/-- What is planned is to be written into folders of the tree. -/
theorem placed_of_plan (ht : s.tree.IsProper) (h : (plan o).Yields s (roots, l) s') :
    ∀ p ∈ l.folders, p.anchor = .root ∧ s.tree.isFolder p.names = true := by
  obtain ⟨hroots, hfolders⟩ := folders_of_plan h
  rw [hfolders]
  exact fun p hp => Sources.placed_of_mem_folders ht hroots hp

/-- Before the first build file nothing is generated. -/
theorem generated_of_plan (ht : s.tree.IsProper) (h : (plan o).Yields s (roots, l) s') :
    l.Generated s.tree s'.tree [] := by
  rw [(keepsTree_plan o).of_yields h]
  exact .refl ht l

/-- What is planned from what was prepared, if nothing is to be ignored. -/
theorem plan_of_prepare {p : Prepared} {folders : List Path} (h : (prepare o none).Yields s p s')
    (hignore : p.manifest.overrides.ignore = [])
    (hfolders : Sources.foldersFound s.tree
      (Sources.roots (p.basis.sourceEntries.map (·.path)) []) [] = .ok folders) :
    (plan o).Yields s (Sources.roots (p.basis.sourceEntries.map (·.path)) [],
      { p.sources with folders, ignored := [] }) s' := by
  have hignored : Sources.ignoredPaths p.manifest.folder p.manifest.overrides.ignore = .ok [] := by
    rw [hignore]
    rfl
  have htree : s'.tree = s.tree := (keepsTree_prepare o).of_yields h
  have hnotes : (Run.logged ((Sources.ignoredNotes (p.basis.sourceEntries.map (·.path)) []).forM
      Logged.say)).Yields s' () s' := by
    have hnone : Sources.ignoredNotes (p.basis.sourceEntries.map (·.path)) [] = [] :=
      List.map_eq_nil_iff.2 (List.filter_eq_nil_iff.2 fun _ _ => Bool.false_ne_true)
    rw [hnone]
    rfl
  refine h.then ?_
  rw [hignored]
  refine Run.Yields.then (a := []) rfl (hnotes.then (Run.Yields.then (a := folders) ?_ rfl))
  exact Run.Yields.of_reading (by rw [htree, hfolders])

/-! ## Runs that succeed -/

/-- A run that succeeds has generated the build files of all folders that were planned, and gives
their paths. -/
theorem generated_of_writeSources {written : List Path} (ht : s.tree.IsProper)
    (h : (writeSources o).Yields s written s') :
    ∃ roots l mid, (plan o).Yields s (roots, l) mid ∧ l.Generated s.tree s'.tree l.folders ∧
      written = l.folders.map (fun folder => folder.entry BuildFile.fileName) ∧
      s'.archives = mid.archives := by
  rw [writeSources_eq] at h
  obtain ⟨⟨roots, l⟩, mid, hplan, h⟩ := h.bind
  obtain ⟨written', mid', hloop, h⟩ := h.bind
  obtain ⟨_, last, hsay, h⟩ := h.bind
  obtain ⟨rfl, rfl⟩ := h.pure
  refine ⟨roots, l, mid, hplan, ?_, Sources.Layout.entries_of_mapM hloop, ?_⟩
  · have hnodup : l.folders.Nodup := (folders_of_plan hplan).2 ▸ Sources.nodup_folders _ _ _
    rw [(Run.KeepsTree.logged _).of_yields hsay]
    exact (generated_of_plan ht hplan).of_mapM hnodup (placed_of_plan ht hplan) hloop
  · rw [hsay.reading.2]
    exact (Run.Yields.mapM (I := fun s => s.archives = mid.archives) (R := fun _ _ => True)
      (fun folder p s₁ s₂ hs₁ hp => ⟨hp.writing.2.trans hs₁, trivial⟩) rfl hloop).1

/-! ## Runs that fail -/

/-- Generating stopped at a folder with a fault. The folders before it are done, and neither its own
build file nor those after it are touched. -/
structure StopsAt (l : Sources.Layout) (t t' : Tree) (e : Fault) (done : List Path) (folder : Path)
    (rest : List Path) : Prop where
  order : l.folders = done ++ folder :: rest
  deepest : l.folders.Pairwise fun a b => Sources.deeperFirst a b = true
  fault : ∃ said said', (l.generate t' folder).run.run said = (.error e, said')
  generated : l.Generated t t' done
  untouched : ∀ f ∈ folder :: rest, t'.get? (Sources.buildFile f) = t.get? (Sources.buildFile f)
  checked : l.settings.validate = true → ∀ f ∈ done, l.Checked t f

/-- A run that fails leaves the tree as it is if it fails before anything is generated. Otherwise it
stops at a folder: up to there each folder has its whole build file, as the sources say that were
there before the run, and from there on each has the one that it had. -/
theorem stopsAt_of_fails {e : Fault} (ht : s.tree.IsProper) (h : (writeSources o).Fails s e s') :
    (plan o).Fails s e s' ∧ s'.tree = s.tree ∨
      ∃ roots l mid done folder rest, (plan o).Yields s (roots, l) mid ∧
        StopsAt l s.tree s'.tree e done folder rest := by
  rw [writeSources_eq] at h
  rcases h.bind with hplan | ⟨⟨roots, l⟩, mid, hplan, h⟩
  · exact .inl ⟨hplan, (keepsTree_plan o).of_fails hplan⟩
  refine .inr ⟨roots, l, mid, ?_⟩
  rcases h.bind with hloop | ⟨written, _, -, h⟩
  · obtain ⟨done, folder, rest, written, last, horder, hdone, hfails⟩ := hloop.mapM
    obtain ⟨⟨said, said', hfault⟩, htree⟩ := hfails.writing
    obtain ⟨-, hfolders⟩ := folders_of_plan hplan
    have hplaced := placed_of_plan ht hplan
    have hnodup : l.folders.Nodup := hfolders ▸ Sources.nodup_folders _ _ _
    have hdeepest : l.folders.Pairwise fun a b => Sources.deeperFirst a b = true :=
      hfolders ▸ Sources.pairwise_folders _ _ _
    rw [horder] at hnodup hplaced
    have hgenerated : l.Generated s.tree s'.tree done := by
      rw [htree]
      exact (generated_of_plan ht hplan).of_mapM (List.nodup_append.1 hnodup).1
        (fun p hp => hplaced p (List.mem_append_left _ hp)) hdone
    refine ⟨done, folder, rest, hplan, horder, hdeepest, ⟨said, said', ?_⟩, hgenerated, ?_, ?_⟩
    · rwa [htree]
    · intro f hf
      refine hgenerated.kept _ fun p hp heq => ?_
      have hsame := Sources.buildFile_inj (hplaced f (List.mem_append_right _ hf)).1
        (hplaced p (List.mem_append_left _ hp)).1 heq
      exact List.disjoint_of_nodup_append hnodup (hsame ▸ hp) hf
    · intro hvalidate f hf
      obtain ⟨text, htext, -⟩ := hgenerated.whole f hf
      exact Sources.Layout.checked_of_text hvalidate htext.yields
  · -- nothing fails once all folders are done
    rcases h.bind with hsay | ⟨_, _, -, hpure⟩
    · cases hsay
    · exact hpure.pure.elim

/-- A project with a folder of sources and another one that holds a file that cannot be read. -/
def brokenSession : Session where
  tree.files := [
    (["w", "deps.edn"], "\x7b:paths [\"src/a\" \"b\"]\x7d".toUTF8),
    (["w", "src", "a", "x.clj"], "(ns a.x)".toUTF8),
    (["w", "b", "bad.clj"], "(ns bad".toUTF8)]

/-- The options of a run on the project. -/
def brokenOptions : Options where
  manifest := .parse "/w"
  repository := some (.parse "/m2")

/-- The folders of the project that get a build file, the deeper first. -/
def brokenFolders : List Path := [⟨.root, ["w", "src", "a"]⟩, ⟨.root, ["w", "b"]⟩]

/-- What is prepared is a layout of the two folders, for which generating fails at the second. -/
def failsAtSecond : Except Fault Prepared × Session → Bool
  | (.ok p, mid) =>
    p.basis.sourceEntries.map (·.path) == brokenFolders && p.manifest.overrides.ignore == [] &&
      match (brokenFolders.mapM fun folder => Run.writing fun t =>
        Sources.Layout.generate { p.sources with folders := brokenFolders, ignored := [] } t
          folder).run.run mid with
      | (.error (.declaration file _), s') => file == "/w/b/bad.clj" &&
          (s'.tree.get? ["w", "src", "a", "BUILD.bazel"]).isSome
      | _ => false
  | _ => false

/-- The run of the example comes to its second folder and fails there. -/
theorem failsAtSecond_of_prepare :
    failsAtSecond ((prepare brokenOptions none).run.run brokenSession) = true := by
  decide +kernel

theorem foldersFound_brokenFolders :
    Sources.foldersFound brokenSession.tree brokenFolders [] = .ok brokenFolders := by
  have hfound : ∀ root ∈ brokenFolders, ∃ there, brokenSession.tree.hasFolder root = .ok there := by
    simp only [brokenFolders, List.forall_mem_cons]
    exact ⟨⟨true, by with_unfolding_all rfl⟩, ⟨true, by with_unfolding_all rfl⟩,
      List.forall_mem_nil _⟩
  have hfolders : (brokenFolders.flatMap (Sources.foldersOf brokenSession.tree [])).eraseDups =
      brokenFolders := by
    decide +kernel
  rw [Sources.foldersFound_of_hasFolder hfound, Sources.folders, hfolders,
    List.mergeSort_of_pairwise (by decide)]

/-- The run on the project fails after one of the two build files is there. -/
theorem exists_failure : ∃ place cause s',
    (writeSources brokenOptions).Fails brokenSession (.declaration place cause) s' ∧
      (s'.tree.get? ["w", "src", "a", "BUILD.bazel"]).isSome = true := by
  have hprepare := failsAtSecond_of_prepare
  rcases hrun : (prepare brokenOptions none).run.run brokenSession with ⟨e | p, mid⟩
  · rw [hrun] at hprepare
    cases hprepare
  rw [hrun] at hprepare
  simp only [failsAtSecond, Bool.and_eq_true, beq_iff_eq] at hprepare
  obtain ⟨⟨hentries, hignore⟩, hloop⟩ := hprepare
  split at hloop
  · next file cause s' hfails =>
    have hroots : Sources.roots (p.basis.sourceEntries.map (·.path)) [] = brokenFolders := by
      rw [hentries]
      decide +kernel
    have hplan := plan_of_prepare hrun hignore (by rw [hroots]; exact foldersFound_brokenFolders)
    refine ⟨file, cause, s', ?_, (Bool.and_eq_true_iff.1 hloop).2⟩
    rw [writeSources_eq]
    exact hplan.then_fails (Run.Fails.of_first hfails _)
  · cases hloop

/-- A run that fails may leave a build file that was not there. -/
theorem exists_half_generated : ∃ place cause s', brokenSession.tree.IsProper ∧
    (writeSources brokenOptions).Fails brokenSession (.declaration place cause) s' ∧
      s'.tree.get? ["w", "src", "a", "BUILD.bazel"] ≠
        brokenSession.tree.get? ["w", "src", "a", "BUILD.bazel"] := by
  obtain ⟨place, cause, s', hfails, hthere⟩ := exists_failure
  refine ⟨place, cause, s', by decide +kernel, hfails, fun heq => ?_⟩
  have hnone : brokenSession.tree.get? ["w", "src", "a", "BUILD.bazel"] = none := by decide +kernel
  rw [heq, hnone] at hthere
  cases hthere

/-- The run stops at the second folder, when the first one is done. -/
theorem stopsAt_of_brokenSession : ∃ e s' roots l mid done folder rest,
    brokenSession.tree.IsProper ∧ (writeSources brokenOptions).Fails brokenSession e s' ∧
      (plan brokenOptions).Yields brokenSession (roots, l) mid ∧
      StopsAt l brokenSession.tree s'.tree e done folder rest ∧ done ≠ [] := by
  obtain ⟨place, cause, s', hfails, hthere⟩ := exists_failure
  have hproper : brokenSession.tree.IsProper := by decide +kernel
  have hnone : brokenSession.tree.get? ["w", "src", "a", "BUILD.bazel"] = none := by decide +kernel
  rcases stopsAt_of_fails hproper hfails with
    ⟨-, htree⟩ | ⟨roots, l, mid, done, folder, rest, hplan, hstops⟩
  · rw [htree, hnone] at hthere
    cases hthere
  · refine ⟨_, s', roots, l, mid, done, folder, rest, hproper, hfails, hplan, hstops, ?_⟩
    rintro rfl
    rw [hstops.generated.kept _ nofun, hnone] at hthere
    cases hthere

end Pipeline

end BuildFiles
