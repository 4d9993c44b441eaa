import BuildFiles.Proofs.Library.Index
import BuildFiles.Proofs.Library.Labels
import BuildFiles.Proofs.Resolution.Edges
import BuildFiles.Proofs.Resolution.Versions

/-!
# Imports carry the edges of the resolution

Where nothing overrides the targets of the libraries, all of them can be made (`exists_targets`).
The build file then holds one import for each library of the classpath, and the import depends on
the labels of what its library needs, in order and each once; the target for all libraries depends
on all imports. `CarriesEdges` says so, and `carriesEdges_of_within` that it holds for every basis
that is resolved and indexed.
-/

namespace BuildFiles

/-! ## Targets whose labels are labels -/

/-- Validation changes nothing where all labels are labels. -/
theorem Attributes.HoldsLabels.exists_finished {a : Attributes} (h : a.HoldsLabels)
    (settings : Settings) (kind : TargetKind) :
    ∃ a', a.normalize true = .ok a' ∧ Sources.finished settings kind a = .ok ⟨kind, a'⟩ := by
  obtain ⟨a', ha', hholds⟩ := h.exists_normalize
  refine ⟨a', ha', ?_⟩
  have hvalid : (Target.mk kind a').validate = .ok () := hholds.validate
  rw [Sources.finished, ha']
  by_cases hvalidate : settings.validate
  · simp only [hvalidate, if_true]
    exact congrArg (· >>= fun _ => .ok (Target.mk kind a')) hvalid
  · simp only [hvalidate]
    rfl

theorem Label.isLabel_ofSamePackage (name : String) :
    Attributes.isLabel (.str (ofSamePackage name)) = true := by
  simp [Attributes.isLabel, Attributes.labelStarts, Text.startsWith, ofSamePackage]

theorem Label.isLabel_qualify {tag : String} (h : Text.startsWith tag "@" = true) (name : String) :
    Attributes.isLabel (.str (qualify tag name)) = true := by
  obtain ⟨more, hmore⟩ := List.isPrefixOf_iff_prefix.1 h
  have hstart : Text.startsWith (qualify tag name) "@" = true := by
    refine List.isPrefixOf_iff_prefix.2 ⟨more ++ "//:".toList ++ name.toList, ?_⟩
    rw [qualify, String.toList_append, String.toList_append, ← hmore]
    simp
  simp [Attributes.isLabel, Attributes.labelStarts, hstart]

theorem Settings.startsWith_of_checked {s s' : Settings} (h : s.checked = .ok s') :
    Text.startsWith s.repositoryTag "@" = true := by
  rw [checked] at h
  split at h
  · assumption
  · cases h

namespace Library.Context

variable {c : Context}

/-- Nothing overrides the targets of the libraries. -/
def IsPlain (c : Context) : Prop := ∀ name, c.overridesAt name = []

/-! ## One import -/

/-- A target that imports the archive of a library and depends on the labels. -/
def importOf (c : Context) (archive : Path) (library : String) (labels : List String) : Target :=
  ⟨.archiveImport, [("name", .str (Label.munge library)), ("jars", .texts [c.wayTo archive])] ++
    if labels.isEmpty then [] else [("deps", .texts labels), ("runtime_deps", .texts labels)]⟩

/-- The labels of what a library directly depends on, in order and each once. -/
def importLabels (c : Context) (library : String) : List String :=
  Text.sortedOnce (c.dependencyLabels library)

theorem importAttributes_of_isPlain (h : c.IsPlain) (archive : Path) (library : String) :
    c.importAttributes archive library =
      (c.importOf archive library (c.dependencyLabels library)).attributes := by
  rw [importAttributes, h, importOf]
  by_cases hdeps : (c.dependencyLabels library).isEmpty
  · simp only [hdeps, if_true]
    rfl
  · simp only [hdeps]
    rfl

theorem holdsLabels_importOf {labels : List String}
    (h : ∀ label ∈ labels, Attributes.isLabel (.str label) = true) (archive : Path)
    (library : String) : (c.importOf archive library labels).attributes.HoldsLabels := by
  have hget : ∀ key ∈ Attributes.labelAttributes,
      (c.importOf archive library labels).attributes.get? key =
        if labels.isEmpty then none else some (.texts labels) := by
    intro key hkey
    simp only [Attributes.labelAttributes, List.mem_cons, List.not_mem_nil, or_false] at hkey
    rcases hkey with rfl | rfl
    all_goals by_cases hlabels : labels.isEmpty <;> simp [importOf, hlabels, Entries.get?_cons]
  intro key hkey value hvalue
  rw [hget key hkey] at hvalue
  split at hvalue
  · cases hvalue
  · exact ⟨labels, (Option.some.inj hvalue).symm, h⟩

theorem normalize_importOf (archive : Path) (library : String) (labels : List String) :
    (c.importOf archive library labels).attributes.normalize true =
      .ok (c.importOf archive library (Text.sortedOnce labels)).attributes := by
  by_cases hlabels : labels = []
  · have hnone : Text.sortedOnce [] = [] := by simp [Text.sortedOnce, Text.sorted]
    rw [hlabels, hnone]
    rfl
  · have hempty : labels.isEmpty = false := by simp [hlabels]
    have hempty' : (Text.sortedOnce labels).isEmpty = false := by
      obtain ⟨label, hlabel⟩ := List.exists_mem_of_ne_nil _ hlabels
      simp [List.ne_nil_of_mem (Text.mem_sortedOnce.2 hlabel)]
    simp only [importOf, hempty, hempty', Attributes.normalize, Attributes.normalizeAll,
      Attributes.labelAttributes, List.foldlM_cons, List.foldlM_nil, Attributes.normalizeAt]
    simp [Entries.get?_cons, Entries.insert, Attributes.normalizedLabels_texts, Except.map, bind,
      Except.bind, pure, Except.pure]

/-- The archive of a library that nothing overrides can be imported. -/
theorem importTarget_returns (h : c.IsPlain) {archive : Path} (harchive : archive.suffix = ".jar")
    (library : String) : (c.importTarget archive library).Returns
      (c.importOf archive library (c.importLabels library)) := by
  have hlabels : ∀ label ∈ c.dependencyLabels library,
      Attributes.isLabel (.str label) = true := by
    intro label hlabel
    obtain ⟨d, -, rfl⟩ := List.mem_map.1 hlabel
    exact Label.isLabel_ofSamePackage _
  obtain ⟨a', ha', hfinished⟩ := (holdsLabels_importOf hlabels archive library).exists_finished
    c.settings .archiveImport
  rw [normalize_importOf, Except.ok.injEq] at ha'
  rw [importTarget, if_neg (not_not_intro harchive), h]
  refine .of ?_
  rw [importAttributes_of_isPlain h, hfinished, ← ha']
  rfl

/-! ## All targets -/

/-- Where nothing is overridden the target of a module can be made: what it depends on is known, and
all of that are labels, so that neither the order nor the validation stops it. -/
theorem exists_moduleTarget (h : c.IsPlain) {settings : Settings}
    (hchecked : c.settings.checked = .ok settings) (library : String) (d : Declaration) :
    ∃ t, c.moduleTarget library d = .ok t ∧ t.kind = .compiledModule := by
  have htag := Settings.startsWith_of_checked hchecked
  obtain ⟨needed, hneeded, hrefers⟩ :=
    (LabelTables.of_libraryLabelTables (i := c.index)).exists_dependencies d
  have hlabels : ∀ label ∈ needed, Attributes.isLabel (.str label) = true := by
    intro label hlabel
    rcases hrefers label hlabel with ⟨ns, -, hnone⟩ | ⟨name, rfl, -⟩
    · cases hnone
    · exact Label.isLabel_qualify htag name
  rw [moduleTarget, hneeded, h]
  set own := Label.qualify c.settings.repositoryTag (Label.munge library)
  have hmerge : Attributes.merge [
      [("name", .str (Label.compiled library d.name)), ("aot", .texts [d.name]),
        ("deps", .texts [own]), ("runtime_deps", .texts [])],
      [("deps", .texts needed)], []] =
      [("name", .str (Label.compiled library d.name)), ("aot", .texts [d.name]),
        ("deps", .texts (own :: needed)), ("runtime_deps", .texts [])] := rfl
  have hholds : Attributes.HoldsLabels [("name", .str (Label.compiled library d.name)),
      ("aot", .texts [d.name]), ("deps", .texts (own :: needed)), ("runtime_deps", .texts [])] := by
    intro key hkey value hvalue
    simp only [Attributes.labelAttributes, List.mem_cons, List.not_mem_nil, or_false] at hkey
    rcases hkey with rfl | rfl
    · refine ⟨own :: needed, (Option.some.inj hvalue).symm, fun s hs => ?_⟩
      rcases List.mem_cons.1 hs with rfl | hs
      · exact Label.isLabel_qualify htag _
      · exact hlabels s hs
    · exact ⟨[], (Option.some.inj hvalue).symm, List.forall_mem_nil _⟩
  obtain ⟨a', -, hfinished⟩ := hholds.exists_finished c.settings .compiledModule
  refine ⟨⟨.compiledModule, a'⟩, ?_, rfl⟩
  exact (congrArg _ hmerge).trans hfinished

/-- The target that imports the archive of a library of the index. -/
def importFor (c : Context) (s : ScannedLibrary) : Target :=
  c.importOf s.archive s.library (c.importLabels s.library)

theorem exists_targetsOf_returns (h : c.IsPlain) {settings : Settings}
    (hchecked : c.settings.checked = .ok settings) {s : ScannedLibrary}
    (hs : s.archive.suffix = ".jar") : ∃ ts, (c.targetsOf s).Returns ts ∧
      ts.filter (fun t => t.kind = .archiveImport) = [c.importFor s] := by
  obtain ⟨modules, hmodules, hkinds⟩ := Except.exists_mapM
    (exists_moduleTarget h hchecked s.library)
    ((firstDeclarations s.contents.declarations).filter fun d => c.index.compiles d.name)
  refine ⟨c.importFor s :: modules,
    (importTarget_returns h hs s.library).bind ((Logged.Returns.of hmodules).bind (.pure _)), ?_⟩
  have hnone : modules.filter (fun t => t.kind = .archiveImport) = [] := by
    rw [List.filter_eq_nil_iff]
    intro t ht
    simp [hkinds t ht]
  rw [List.filter_cons_of_pos (by simp [importFor, importOf]), hnone]

/-- All targets can be made, and the imports among them are those of the libraries. -/
theorem exists_targets (h : c.IsPlain) {settings : Settings}
    (hchecked : c.settings.checked = .ok settings)
    (hsuffixes : ∀ s ∈ c.index.scanned, s.archive.suffix = ".jar") :
    ∃ targets, c.targets.Returns targets ∧ c.allTarget ∈ targets ∧
      targets.filter (fun t => t.kind = .archiveImport) = c.libraries.map c.importFor := by
  obtain ⟨lists, hlists, hall⟩ := Logged.Returns.exists_mapM
    (R := fun s (ts : List Target) =>
      ts.filter (fun t => t.kind = .archiveImport) = [c.importFor s])
    (l := c.libraries) fun s hs => exists_targetsOf_returns h hchecked
      (hsuffixes s (mem_libraries.1 hs))
  refine ⟨lists.flatten ++ [c.allTarget], hlists.bind (.pure _), by simp, ?_⟩
  have himports : ∀ (l : List ScannedLibrary) (lists : List (List Target)),
      List.Forall₂ (fun s ts => ts.filter (fun t => t.kind = .archiveImport) = [c.importFor s])
        l lists →
      lists.flatten.filter (fun t => t.kind = .archiveImport) = l.map c.importFor := by
    intro l lists hall
    induction hall with
    | nil => rfl
    | cons hs _ ih => rw [List.flatten_cons, List.filter_append, hs, ih]; rfl
  rw [List.filter_append, himports _ _ hall]
  exact List.append_nil _

end Library.Context

namespace Resolution

/-! ## Edges in the build file -/

/-- How the edges between libraries stand in the index and in the targets of the libraries. -/
structure CarriesEdges (r : Repository) (m : Manifest) (aliases : List String) (known : PomCache)
    (s : Progress) (b : Basis) (c : Library.Context) (targets : List Target) : Prop where
  /-- the index has a library depend on what it needs -/
  edges : ∀ p q, q ∈ (c.index.dependencies.get? p).getD [] ↔ Needs r m aliases known s b p q
  /-- it lists what there is in order, and only libraries with an archive -/
  listed : ∀ p qs, c.index.dependencies.get? p = some qs → qs ≠ [] ∧ qs.Pairwise (· < ·) ∧
    ∀ l, l = p ∨ l ∈ qs → ∃ archive, (archive, l) ∈ b.libraries
  /-- an archive that is not of the repository is not listed, nor is what needs nothing -/
  unlisted : ∀ p, (∀ t, s.selected.get? p = some t → t.version = none) ∨
    (∀ q, ¬ Needs r m aliases known s b p q) → c.index.dependencies.get? p = none
  /-- there is one import for each library, and it depends on the labels of what is needed -/
  imports : ∃ labelsOf : String → List String,
    (∀ p, (labelsOf p).Pairwise (· < ·) ∧ ∀ label, label ∈ labelsOf p ↔
      ∃ q, Needs r m aliases known s b p q ∧ label = Label.ofSamePackage (Label.munge q)) ∧
    (targets.filter fun t => t.kind = .archiveImport).Perm
      (b.libraries.map fun (archive, p) => c.importOf archive p (labelsOf p))
  /-- what is needed has an import of its name -/
  named : ∀ p q, Needs r m aliases known s b p q →
    ∃ t ∈ targets, t.kind = .archiveImport ∧ t.name = .ok (Label.munge q)
  /-- one target depends on all imports -/
  all : ∃ names, (targets.filter fun t => t.kind = .archiveImport).mapM Target.name = .ok names ∧
    ⟨.aggregateLibrary, [("name", .str "__all"),
      ("deps", .texts (names.map Label.ofSamePackage))]⟩ ∈ targets

theorem name_importOf (c : Library.Context) (archive : Path) (library : String)
    (labels : List String) :
    (c.importOf archive library labels).name = .ok (Label.munge library) := rfl

/-- What is resolved and indexed can be written, and carries the edges. The targets are there
because nothing overrides them; what an import depends on is read off the trace of the resolution,
by way of the index. -/
theorem carriesEdges_of_within {r : Repository} {m : Manifest} {aliases : List String} {fuel : Nat}
    {known known' : PomCache} {s : Progress} {b : Basis}
    (h : (within r m aliases fuel).Yields known (s, b) known') {base : Path} {named : List String}
    {before mid : Session} {i : Index} (hbefore : before.KnowsArchives)
    (hindex : (Run.index base named b).Yields before i mid) {c : Library.Context}
    (hc : c.index = i) (hplain : c.IsPlain) {settings : Settings}
    (hchecked : c.settings.checked = .ok settings) :
    ∃ targets, c.targets.Returns targets ∧
      CarriesEdges r m aliases known s b c targets := by
  subst hc
  obtain ⟨tops, taken, found, hcomplete⟩ := complete_of_within h
  have hof := isOf_of_index hindex
  obtain ⟨targets, htargets, hall, himports⟩ := Library.Context.exists_targets hplain hchecked
    (suffix_of_index hbefore hindex)
  have hedges : ∀ p q, q ∈ (c.index.dependencies.get? p).getD [] ↔
      Needs r m aliases known s b p q := by
    rw [hof.dependencies]
    exact fun p q => hcomplete.mem_directDependencies_iff_needs
  have hlisted : ∀ p qs, c.index.dependencies.get? p = some qs →
      qs ≠ [] ∧ qs.Pairwise (· < ·) ∧ ∀ q ∈ qs, Needs r m aliases known s b p q := by
    intro p qs hqs
    have hsorted := hqs
    rw [hof.dependencies] at hsorted
    obtain ⟨hne, hpairwise⟩ := sorted_of_directDependencies hsorted
    refine ⟨hne, hpairwise, fun q hq => ?_⟩
    rw [← hedges, hqs]
    exact hq
  refine ⟨targets, htargets, hedges, ?_, ?_,
    ⟨c.importLabels, fun p => ⟨?_, fun label => ?_⟩, ?_⟩, ?_, ?_⟩
  · intro p qs hqs
    obtain ⟨hne, hpairwise, hneeds⟩ := hlisted p qs hqs
    refine ⟨hne, hpairwise, ?_⟩
    rintro l (rfl | hl)
    · obtain ⟨q, hq⟩ := List.exists_mem_of_ne_nil _ hne
      exact hcomplete.exists_archive_of_needs (hneeds q hq) l (.inl rfl)
    · exact hcomplete.exists_archive_of_needs (hneeds l hl) l (.inr rfl)
  · intro p hnothing
    by_contra hsome
    obtain ⟨qs, hqs⟩ := Option.ne_none_iff_exists'.1 hsome
    obtain ⟨hne, -, hneeds⟩ := hlisted p qs hqs
    obtain ⟨q, hq⟩ := List.exists_mem_of_ne_nil _ hne
    rcases hnothing with hlocal | hnone
    · obtain ⟨t, ds, d, hselected, ⟨version, hversion, -⟩, -⟩ := hneeds q hq
      rw [hlocal t hselected] at hversion
      cases hversion
    · exact hnone q (hneeds q hq)
  · exact Text.pairwise_lt_sortedOnce _
  · rw [Library.Context.importLabels, Text.mem_sortedOnce, Library.Context.dependencyLabels,
      List.mem_map]
    simp only [hedges, eq_comm (a := label)]
  · rw [himports, ← hof.claims, List.map_map]
    exact (List.mergeSort_perm _ _).map _
  · intro p q hneeds
    obtain ⟨archive, hq⟩ := hcomplete.exists_archive_of_needs hneeds q (.inr rfl)
    obtain ⟨x, hx, rfl, rfl⟩ := hof.mem_libraries.1 hq
    have hmem : c.importFor x ∈ targets.filter fun t => t.kind = .archiveImport := by
      rw [himports]
      exact List.mem_map_of_mem (Library.Context.mem_libraries.2 hx)
    exact ⟨_, List.mem_of_mem_filter hmem, rfl, name_importOf ..⟩
  · refine ⟨c.libraries.map fun x => Label.munge x.library, ?_, ?_⟩
    · rw [himports]
      generalize c.libraries = l
      induction l with
      | nil => rfl
      | cons x l ih => rw [List.map_cons, List.mapM_cons, ih]; rfl
    · rw [List.map_map]
      exact hall

/-- A session that knows the archives of the small repository, which hold nothing. -/
def smallArchives : Session where
  tree := smallRepository.tree
  archives := smallRepository.tree.files.keys.map fun place => (⟨.root, place⟩, ⟨[], []⟩)

theorem knowsArchives_smallArchives : smallArchives.KnowsArchives := by
  have hjars : ∀ p ∈ smallArchives.archives.keys, p.suffix = ".jar" := by decide +kernel
  intro p contents hp
  refine hjars p (Entries.has_eq_true_iff.1 ?_)
  rw [Entries.has_eq_isSome, hp]
  rfl

/-- The small resolution can be indexed where its archives are known: no archive or library is there
twice, and nothing has to be scanned. -/
theorem exists_smallIndex : ∃ s b known' i mid,
    (within smallRepository smallManifest [] 3).Yields smallKnown (s, b) known' ∧
      b.trace = smallTrace ∧ (Run.index (.parse "/w") [] b).Yields smallArchives i mid := by
  obtain ⟨⟨s, b⟩, known', hrun, hholds⟩ := Resolving.exists_yields
    (within smallRepository smallManifest [] 3) smallKnown
    (fun p => p.2.trace == smallTrace &&
      p.1.selected.values.map (·.archive) == smallArchives.archives.keys)
    (by decide +kernel)
  obtain ⟨htrace, harchives⟩ := Bool.and_eq_true_iff.1 hholds
  obtain ⟨tops, taken, found, hcomplete⟩ := complete_of_within hrun
  have hperm : (b.libraries.map Prod.fst).Perm smallArchives.archives.keys := by
    rw [← eq_of_beq harchives]
    simpa [Function.comp_def] using hcomplete.perm_libraries.map Prod.fst
  have hsources : b.sourceEntries = [] := Except.ok.inj (sourceEntries_of_within hrun).symm
  have hlibraries := hcomplete.pairwise_libraries.imp String.ne_of_lt
  have hknown : ∀ claim ∈ b.libraries,
      ∃ contents, smallArchives.archives.get? claim.1 = some contents := by
    intro claim hclaim
    rw [← Option.isSome_iff_exists, ← Entries.has_eq_isSome, Entries.has_eq_true_iff]
    exact hperm.mem_iff.1 (List.mem_map_of_mem hclaim)
  obtain ⟨i, mid, hindex, -⟩ := Run.exists_index hsources (hperm.nodup_iff.2 (by decide +kernel))
    hlibraries hknown (.parse "/w") []
  exact ⟨s, b, known', i, mid, hrun, eq_of_beq htrace, hindex⟩

/-- The import of `g/b` depends on that of `g/c`, and not on one of `g/x`. -/
theorem carriesEdges_of_smallResolution : ∃ s b known' i mid,
    (within smallRepository smallManifest [] 3).Yields smallKnown (s, b) known' ∧
      (Run.index (.parse "/w") [] b).Yields smallArchives i mid ∧
      Needs smallRepository smallManifest [] smallKnown s b "g/b" "g/c" ∧
      ¬ Needs smallRepository smallManifest [] smallKnown s b "g/b" "g/x" ∧
      ∃ targets, ({ index := i, folder := .parse "/w" } : Library.Context).targets.Returns targets ∧
        CarriesEdges smallRepository smallManifest [] smallKnown s b
          { index := i, folder := .parse "/w" } targets := by
  obtain ⟨s, b, known', i, mid, hrun, htrace, hindex⟩ := exists_smallIndex
  have hchecked : ({} : Settings).checked = .ok {} := if_pos (by decide)
  obtain ⟨targets, htargets, hcarries⟩ := carriesEdges_of_within hrun knowsArchives_smallArchives
    hindex (c := { index := i, folder := .parse "/w" }) rfl (fun _ => rfl) hchecked
  have hedges : ∀ p q, Needs smallRepository smallManifest [] smallKnown s b p q ↔
      ∃ x ∈ smallTrace, x.edge? = some (p, q) := by
    intro p q
    rw [← hcarries.edges, (isOf_of_index hindex).dependencies, htrace,
      mem_directDependencies]
  exact ⟨s, b, known', i, mid, hrun, hindex, (hedges ..).2 (by decide),
    mt (hedges ..).1 (by decide), targets, htargets, hcarries⟩

end Resolution

end BuildFiles
