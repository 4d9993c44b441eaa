import BuildFiles.Proofs.Determinacy
import BuildFiles.Proofs.Library.Index
import BuildFiles.Proofs.Library.Labels
import BuildFiles.Proofs.Resolution.Edges
import Mathlib.Data.List.Perm.Basic
import Mathlib.Data.List.Sort

/-!
# The order of the classpath

The archives of a classpath are gone through in its order, and what a later one declares replaces
what an earlier one did. Where no two archives declare the same, there is nothing to replace: the
maps of the index answer alike in any order (`agrees_of_perm`), and nothing else of it is looked at
but the libraries in the order of their labels. So neither the build file of the libraries nor the
targets of the sources depend on the order of the classpath or that of the trace:
`Run.agrees_of_index`.
-/

namespace BuildFiles

/-! ## Maps that are written in another order -/

namespace Entries

variable {α β : Type} [BEq α] [LawfulBEq α] {new new' : List (α × β)}

/-- No key is written with two values. -/
def IsFunctional (new : List (α × β)) : Prop :=
  ∀ k v v', (k, v) ∈ new → (k, v') ∈ new → v = v'

theorem get?_ofList_eq_some (h : IsFunctional new) {k : α} {v : β} :
    (ofList new).get? k = some v ↔ (k, v) ∈ new := by
  refine ⟨mem_of_get?_ofList, fun hmem => ?_⟩
  obtain ⟨v', hget⟩ := exists_get?_ofList hmem
  rw [hget, h k v v' hmem (mem_of_get?_ofList hget)]

omit [BEq α] [LawfulBEq α] in
theorem isFunctional_of_nodup (h : (new.map Prod.fst).Nodup) : IsFunctional new :=
  fun _ _ _ hv hv' => congrArg Prod.snd (List.inj_on_of_nodup_map h hv hv' rfl)

/-- Where no key is written with two values, the order of writing does not matter. -/
theorem get?_ofList_of_perm (h : IsFunctional new) (hperm : new.Perm new') (k : α) :
    (ofList new).get? k = (ofList new').get? k := by
  have h' : IsFunctional new' :=
    fun k v v' hv hv' => h k v v' (hperm.mem_iff.2 hv) (hperm.mem_iff.2 hv')
  refine Option.ext fun v => ?_
  rw [get?_ofList_eq_some h, get?_ofList_eq_some h', hperm.mem_iff]

end Entries

/-- The dependencies between libraries are those of the records, in whatever order. -/
theorem get?_directDependencies_of_perm {trace trace' : List TraceRecord}
    (h : trace.Perm trace') (library : String) :
    (directDependencies trace).get? library = (directDependencies trace').get? library := by
  have hedges : (edgesFrom trace library).Perm (edgesFrom trace' library) :=
    ((h.filterMap _).filter _).map _
  rw [get?_directDependencies, get?_directDependencies,
    Text.sortedOnce_congr fun _ => hedges.mem_iff]
  simp only [← List.length_eq_zero_iff, hedges.length_eq]

namespace Index

variable {i i' : Index}

/-- No namespace and no class is in two archives, and no two libraries have the same label. -/
structure IsDisjoint (i : Index) : Prop where
  namespaces : ∀ x ∈ i.scanned, ∀ y ∈ i.scanned, ∀ ns, ns ∈ x.contents.namespaces →
    ns ∈ y.contents.namespaces → x.archive = y.archive
  classes : ∀ x ∈ i.scanned, ∀ y ∈ i.scanned, ∀ c, c ∈ x.contents.classes →
    c ∈ y.contents.classes → x.archive = y.archive
  labels : (i.scanned.map fun x => Label.munge x.library).Nodup

instance (i : Index) : Decidable i.IsDisjoint :=
  decidable_of_iff ((∀ x ∈ i.scanned, ∀ y ∈ i.scanned, ∀ ns ∈ x.contents.namespaces,
      ns ∈ y.contents.namespaces → x.archive = y.archive) ∧
    (∀ x ∈ i.scanned, ∀ y ∈ i.scanned, ∀ c ∈ x.contents.classes, c ∈ y.contents.classes →
      x.archive = y.archive) ∧
    (i.scanned.map fun x => Label.munge x.library).Nodup)
    ⟨fun ⟨hnamespaces, hclasses, hlabels⟩ => ⟨hnamespaces, hclasses, hlabels⟩,
      fun h => ⟨h.namespaces, h.classes, h.labels⟩⟩

/-- The indices hold the same archives, and their maps answer alike. -/
structure Agrees (i i' : Index) : Prop where
  scanned : i.scanned.Perm i'.scanned
  archiveLibraries : ∀ p, i.archiveLibraries.get? p = i'.archiveLibraries.get? p
  libraryArchives : ∀ l, i.libraryArchives.get? l = i'.libraryArchives.get? l
  classArchives : ∀ c, i.classArchives.get? c = i'.classArchives.get? c
  dependencies : ∀ l, i.dependencies.get? l = i'.dependencies.get? l
  sourceLabels : i.sourceLabels = i'.sourceLabels
  libraryTargets : ∀ ns, i.libraryTargets.get? ns = i'.libraryTargets.get? ns
  excluded : i.excluded = i'.excluded

theorem targetName_eq (h : i.excluded = i'.excluded) : i.targetName = i'.targetName := by
  funext library ns
  rw [targetName, targetName, compiles, compiles, h]

/-- Indices of archives that declare nothing twice agree if they differ in the order of the archives
alone. -/
theorem agrees_of_perm (hperm : i.scanned.Perm i'.scanned)
    (harchives : (i.scanned.map (·.archive)).Nodup) (hdisjoint : i.IsDisjoint)
    (hdependencies : ∀ l, i.dependencies.get? l = i'.dependencies.get? l)
    (hlabels : i.sourceLabels = i'.sourceLabels) (hexcluded : i.excluded = i'.excluded) :
    i.Agrees i' := by
  have hlibraries : (i.scanned.map (·.library)).Nodup := by
    have := hdisjoint.labels
    exact List.Nodup.of_map Label.munge (by rwa [List.map_map])
  have hsame : ∀ x ∈ i.scanned, ∀ y ∈ i.scanned, x.archive = y.archive → x = y :=
    fun x hx y hy => List.inj_on_of_nodup_map harchives hx hy
  refine ⟨hperm, ?_, ?_, ?_, hdependencies, hlabels, ?_, hexcluded⟩
  · refine Entries.get?_ofList_of_perm (Entries.isFunctional_of_nodup ?_) (hperm.map _)
    rwa [List.map_map]
  · refine Entries.get?_ofList_of_perm (Entries.isFunctional_of_nodup ?_) (hperm.map _)
    rwa [List.map_map]
  · refine Entries.get?_ofList_of_perm (fun c p p' h h' => ?_) (hperm.flatMap_right _)
    simp only [List.mem_flatMap, List.mem_map, Prod.mk.injEq] at h h'
    obtain ⟨x, hx, c, hc, rfl, rfl⟩ := h
    obtain ⟨y, hy, _, hc', rfl, rfl⟩ := h'
    exact hdisjoint.classes x hx y hy _ hc hc'
  · have hnames : i.libraryNamespaces.Perm i'.libraryNamespaces := hperm.flatMap_right _
    intro ns
    rw [libraryTargets, libraryTargets, ← targetName_eq hexcluded]
    refine Entries.get?_ofList_of_perm (fun ns v v' h h' => ?_) (hnames.map _) ns
    simp only [libraryNamespaces, List.mem_map, List.mem_flatMap, Prod.mk.injEq,
      Prod.exists] at h h'
    obtain ⟨_, _, ⟨x, hx, _, hns, rfl, rfl⟩, rfl, rfl⟩ := h
    obtain ⟨_, _, ⟨y, hy, _, hns', rfl, rfl⟩, rfl, rfl⟩ := h'
    rw [hsame x hx y hy (hdisjoint.namespaces x hx y hy _ hns hns')]

end Index

/-! ## What is looked up -/

namespace LabelTables

variable {i i' : Index} {tag : String} {t t' : LabelTables}

/-- Looking a class up in an index never fails, so the order of the libraries is not told either. -/
theorem classLabel?_eq (h : i.Agrees i') (ht : Of i tag t) (ht' : Of i' tag t') :
    t'.classLabel? = t.classLabel? := by
  funext className
  rw [classLabel?, classLabel?, ht.classArchives, ht'.classArchives, ← h.classArchives]
  rcases hclass : i.classArchives.get? className with _ | archive
  · rfl
  · obtain ⟨s, -, hlibrary⟩ := i.exists_library_of_class hclass
    simp only [archiveLabel, ht.archiveLibraries, ht'.archiveLibraries, ← h.archiveLibraries,
      hlibrary, ht.tag, ht'.tag]

theorem namespaceLabel?_eq (h : i.Agrees i') (ht : Of i tag t) (ht' : Of i' tag t')
    (hsources : t.sourceLabels = t'.sourceLabels) : t'.namespaceLabel? = t.namespaceLabel? := by
  funext ns
  rw [namespaceLabel?, namespaceLabel?, hsources, ht.libraryTargets, ht'.libraryTargets,
    ← h.libraryTargets, ht.tag, ht'.tag]

/-- Tables of indices that agree give the same labels to all declarations. -/
theorem dependencies_eq (h : i.Agrees i') (ht : Of i tag t) (ht' : Of i' tag t')
    (hsources : t.sourceLabels = t'.sourceLabels) : t'.dependencies = t.dependencies := by
  have hclasses : t'.classLabels = t.classLabels := by
    funext classNames
    rw [classLabels, classLabels, classLabel?_eq h ht ht']
  funext d
  rw [dependencies, dependencies, importLabels, importLabels, extendedLabels, extendedLabels,
    requireLabels, requireLabels, hclasses, namespaceLabel?_eq h ht ht' hsources]

end LabelTables

/-- The libraries are in the order of their labels. -/
theorem Library.Context.pairwise_libraries (c : Library.Context) :
    c.libraries.Pairwise fun a b => Label.munge a.library ≤ Label.munge b.library := by
  have hle : c.libraries.Pairwise fun a b =>
      decide (Label.munge a.library ≤ Label.munge b.library) = true := List.pairwise_mergeSort
    (fun a b c hab hbc => by simpa using String.le_trans (by simpa using hab) (by simpa using hbc))
    (fun a b => by simpa using String.le_total _ _) _
  simpa using hle

namespace Index.Agrees

variable {i i' : Index}

theorem compiles_eq (h : i.Agrees i') : i'.compiles = i.compiles := by
  funext ns
  rw [compiles, compiles, h.excluded]

theorem stripPrefix?_eq (c : Sources.Context) (p : Path) :
    ({ c with index := i' }).stripPrefix? p = c.stripPrefix? p := by
  have hsearch : ∀ paths, Sources.Context.stripPrefix?.search { c with index := i' } p paths =
      Sources.Context.stripPrefix?.search c p paths := by
    intro paths
    induction paths with
    | nil => rfl
    | cons d paths ih => cases d <;> simp only [Sources.Context.stripPrefix?.search, ih]
  exact hsearch c.sourcePaths

/-- The targets of the sources are the same, with what is said when they are made. -/
theorem targets_eq (h : i.Agrees i') (c : Sources.Context) (hc : c.index = i) (t : Tree)
    (p : Path) : ({ c with index := i' }).targets t p = c.targets t p := by
  subst hc
  have hdependencies : (i'.labelTables c.settings.repositoryTag).dependencies =
      (c.index.labelTables c.settings.repositoryTag).dependencies :=
    LabelTables.dependencies_eq h LabelTables.of_labelTables LabelTables.of_labelTables
      h.sourceLabels
  have hfor : ({ c with index := i' }).targetsFor = c.targetsFor := by
    funext p d
    rw [Sources.Context.targetsFor, Sources.Context.targetsFor, h.compiles_eq, hdependencies,
      stripPrefix?_eq]
    rfl
  rw [Sources.Context.targets, Sources.Context.targets, hfor]

/-- The libraries are the same in the order of their labels, too, as no two of them have the same
label and the order in which they were scanned is lost in sorting. -/
theorem libraries_eq (h : i.Agrees i')
    (hlabels : (i.scanned.map fun x => Label.munge x.library).Nodup) (c : Library.Context)
    (hc : c.index = i) : ({ c with index := i' }).libraries = c.libraries := by
  subst hc
  have hperm : ({ c with index := i' }).libraries.Perm c.libraries :=
    (List.mergeSort_perm _ _).trans (h.scanned.symm.trans (List.mergeSort_perm _ _).symm)
  refine List.Perm.eq_of_pairwise (fun a b ha hb hab hba => ?_)
    (Library.Context.pairwise_libraries _) (Library.Context.pairwise_libraries _) hperm
  -- two libraries with the same label are the same
  exact List.inj_on_of_nodup_map hlabels (Library.Context.mem_libraries.1 (hperm.mem_iff.1 ha))
    (Library.Context.mem_libraries.1 hb) (String.le_antisymm hab hba)

theorem importTarget_eq (h : i.Agrees i') (c : Library.Context) (hc : c.index = i) :
    ({ c with index := i' }).importTarget = c.importTarget := by
  subst hc
  have hattributes : ({ c with index := i' }).importAttributes = c.importAttributes := by
    funext archive library
    rw [Library.Context.importAttributes, Library.Context.importAttributes,
      Library.Context.dependencyLabels, Library.Context.dependencyLabels, ← h.dependencies]
    rfl
  funext archive library
  rw [Library.Context.importTarget, Library.Context.importTarget, hattributes]
  rfl

theorem moduleTargets_eq (h : i.Agrees i') (c : Library.Context) (hc : c.index = i) :
    ({ c with index := i' }).moduleTargets = c.moduleTargets := by
  subst hc
  have hdependencies : (i'.libraryLabelTables c.settings.repositoryTag).dependencies =
      (c.index.libraryLabelTables c.settings.repositoryTag).dependencies :=
    LabelTables.dependencies_eq h LabelTables.of_libraryLabelTables
      LabelTables.of_libraryLabelTables rfl
  have htarget : ({ c with index := i' }).moduleTarget = c.moduleTarget := by
    funext library d
    rw [Library.Context.moduleTarget, Library.Context.moduleTarget, hdependencies]
    rfl
  funext s
  rw [Library.Context.moduleTargets, Library.Context.moduleTargets, h.compiles_eq, htarget]

/-- The build file of the libraries has the same text, and the same is said when it is made. -/
theorem text_eq (h : i.Agrees i')
    (hlabels : (i.scanned.map fun x => Label.munge x.library).Nodup) (c : Library.Context)
    (hc : c.index = i) : ({ c with index := i' }).text = c.text := by
  have hlibraries := h.libraries_eq hlabels c hc
  have htargets : ({ c with index := i' }).targetsOf = c.targetsOf := by
    funext s
    rw [Library.Context.targetsOf, Library.Context.targetsOf, h.importTarget_eq c hc,
      h.moduleTargets_eq c hc]
  have hall : ({ c with index := i' }).allTarget = c.allTarget := by
    rw [Library.Context.allTarget, Library.Context.allTarget, hlibraries]
  rw [Library.Context.text, Library.Context.text, Library.Context.targets, Library.Context.targets,
    hlibraries, htargets, hall]

end Index.Agrees

/-! ## An index of the same archives in another order -/

section Index

variable {s mid : Session} {base : Path} {named : List String} {b b' : Basis} {i : Index}

theorem Index.sourceLabelsOf_eq (h : b.sourceEntries = b'.sourceEntries) (t : Tree) (base : Path) :
    Index.sourceLabelsOf t base b' = Index.sourceLabelsOf t base b := by
  rw [sourceLabelsOf, sourceLabelsOf, h]

/-- Where a classpath is accepted, it is in any order, and the same archives are scanned. -/
theorem Run.exists_index_of_perm (hs : s.IsTrue) (hsources : b.sourceEntries = b'.sourceEntries)
    (hlibraries : b.libraries.Perm b'.libraries) (h : (Run.index base named b).Yields s i mid) :
    ∃ i', (Run.index base named b').Returns s.tree i' ∧ i.scanned.Perm i'.scanned ∧
      i'.dependencies = directDependencies b'.trace ∧ i.sourceLabels = i'.sourceLabels ∧
      i.excluded = i'.excluded := by
  have hof := isOf_of_index h
  obtain ⟨claimed, mid', hclaimed, h⟩ := h.bind
  obtain ⟨scanned, mid'', hscanned, h⟩ := h.bind
  have htree : mid'.tree = s.tree := (KeepsTree.logged _).of_yields hclaimed
  have htree' : mid''.tree = s.tree :=
    ((KeepsTree.mapM KeepsTree.scanLibrary claimed).of_yields hscanned).trans htree
  have hscans := forall₂_of_scanLibraries ((KeepsTruth.logged _).of_yields hs hclaimed) hscanned
  rw [(archiveLibraries_eq_ok hclaimed.reading.1.of).1, htree] at hscans
  -- the archives are scanned in the order of the other classpath
  obtain ⟨scanned', hscans', hperm⟩ := List.perm_comp_forall₂ hlibraries.symm hscans
  have hreturns : List.Forall₂ (fun claim x => (scanLibrary claim).Returns s.tree x) b'.libraries
      scanned' := by
    refine hscans'.imp ?_
    rintro claim x ⟨rfl, hx⟩
    exact (Returns.scan hx).bind (.pure _ _)
  have hclaimed' : b'.archiveLibraries = .ok b'.libraries :=
    claimArchives_of_nodup ((hlibraries.map _).nodup_iff.1 hof.archives)
      ((hlibraries.map _).nodup_iff.1 hof.libraries)
  obtain ⟨labels, hlabels, hbuild⟩ := h.reading.1.bind
  obtain ⟨_, -, hpure⟩ := hbuild.bind
  obtain rfl := hpure.pure
  have hlabels' : (Index.sourceLabelsOf s.tree base b').Returns labels := by
    rw [Index.sourceLabelsOf_eq hsources, ← htree']
    exact hlabels.returns ((Logged.IsSteady.mapM (Index.steady_labelsIn _ _) _).bind fun _ =>
      .pure _)
  have hbuild' : (Index.build s.tree base named b' scanned').Returns {
      scanned := scanned'
      dependencies := directDependencies b'.trace
      sourceLabels := labels
      excluded := excludedFromCompilation named } :=
    hlabels'.bind ((Logged.Returns.sayAll _).bind (.pure _))
  exact ⟨_, (Returns.logged (.of hclaimed') _).bind ((Returns.mapM hreturns).bind
    (.reading hbuild')), hperm.symm, rfl, rfl, rfl⟩

/-- Where no two archives declare the same, neither the order of the classpath nor that of the trace
can be told from what is generated: the index is there in any order, its maps answer alike, and the
text of the build file of the libraries and the targets of each source file are the same, whatever
else they are made from. -/
theorem Run.agrees_of_index (hs : s.IsTrue) (hsources : b.sourceEntries = b'.sourceEntries)
    (hlibraries : b.libraries.Perm b'.libraries) (htrace : b.trace.Perm b'.trace)
    (h : (Run.index base named b).Yields s i mid) (hdisjoint : i.IsDisjoint) :
    ∃ i', (Run.index base named b').Returns s.tree i' ∧ i.Agrees i' ∧
      (∀ c : Library.Context, ({ c with index := i' }).text = ({ c with index := i }).text) ∧
      ∀ (c : Sources.Context) (t : Tree) (p : Path),
        ({ c with index := i' }).targets t p = ({ c with index := i }).targets t p := by
  have hof := isOf_of_index h
  have harchives : (i.scanned.map (·.archive)).Nodup := by
    have hnodup := hof.archives
    rwa [← hof.claims, List.map_map] at hnodup
  obtain ⟨i', hreturns, hperm, hdependencies, hlabels, hexcluded⟩ :=
    Run.exists_index_of_perm hs hsources hlibraries h
  have hagrees : i.Agrees i' := by
    refine Index.agrees_of_perm hperm harchives hdisjoint (fun l => ?_) hlabels hexcluded
    rw [hof.dependencies, hdependencies, get?_directDependencies_of_perm htrace]
  exact ⟨i', hreturns, hagrees,
    fun c => hagrees.text_eq hdisjoint.labels { c with index := i } rfl,
    fun c => hagrees.targets_eq { c with index := i } rfl⟩

end Index

/-! ## Two archives -/

/-- A session over a tree with an archive of a source file and one of a class. -/
def twoArchives : Session where
  tree := { files := [
    (["r", "a.jar"], Archive.encode [("a/core.clj", "(ns a.core)".toUTF8)]),
    (["r", "b.jar"], Archive.encode [("b/B.class", .empty)])] }

/-- A classpath of both, of which the second depends on the first. -/
def twoLibraries : Basis where
  classpath := [{ path := ⟨.root, ["r", "a.jar"]⟩, library := some "g/a" },
    { path := ⟨.root, ["r", "b.jar"]⟩, library := some "g/b" }]
  trace := [⟨[], "g/b", "new-top-dep"⟩, ⟨["g/b"], "g/a", "new-dep"⟩]

/-- The same libraries, with the last one first. -/
def turnedLibraries : Basis where
  classpath := twoLibraries.classpath.reverse
  trace := twoLibraries.trace.reverse

/-- The two libraries declare nothing in common, and so, with the last library first, what the
archives hold is found as before. -/
theorem agrees_of_turnedLibraries : ∃ i i' mid,
    (Run.index ⟨.root, ["w"]⟩ [] twoLibraries).Yields twoArchives i mid ∧
      (Run.index ⟨.root, ["w"]⟩ [] turnedLibraries).Returns twoArchives.tree i' ∧
      i'.libraryTargets.get? "a.core" = some "ns_g_a_a_core" ∧
      i'.classArchives.get? "b.B" = some ⟨.root, ["r", "b.jar"]⟩ ∧
      ∀ c : Library.Context, ({ c with index := i' }).text = ({ c with index := i }).text := by
  obtain ⟨i, mid, hindex, hholds⟩ := Run.exists_yields
    (Run.index ⟨.root, ["w"]⟩ [] twoLibraries) twoArchives
    (fun i => decide i.IsDisjoint && (i.libraryTargets.get? "a.core" == some "ns_g_a_a_core" &&
      i.classArchives.get? "b.B" == some ⟨.root, ["r", "b.jar"]⟩))
    (by decide +kernel)
  simp only [Bool.and_eq_true, decide_eq_true_iff, beq_iff_eq] at hholds
  obtain ⟨hdisjoint, hnamespace, hclass⟩ := hholds
  have hsources : twoLibraries.sourceEntries = turnedLibraries.sourceEntries := rfl
  have hlibraries : twoLibraries.libraries.Perm turnedLibraries.libraries :=
    (List.reverse_perm _).symm.filterMap _
  have htrace : twoLibraries.trace.Perm turnedLibraries.trace := (List.reverse_perm _).symm
  obtain ⟨i', hreturns, hagrees, htext, -⟩ :=
    Run.agrees_of_index (Session.isTrue_of_nil rfl) hsources hlibraries htrace hindex hdisjoint
  exact ⟨i, i', mid, hindex, hreturns, (hagrees.libraryTargets _).symm.trans hnamespace,
    (hagrees.classArchives _).symm.trans hclass, htext⟩

end BuildFiles
