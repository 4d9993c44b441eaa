import BuildFiles.Library.Targets
import BuildFiles.Proofs.Rule.Attributes
import BuildFiles.Proofs.Session

/-!
# The labels of libraries are names of targets

What a declaration depends on is decided by the tables of an index, and the targets of the libraries
are made from the archives of the index. Both name an archive or a namespace in the same way: each
label that is not one of the project's sources refers to a target that is there
(`labels_of_index`), also when the archives are opened anew after they were changed
(`rescannedTargets_eq`).
-/

namespace BuildFiles

/-! ## The first declaration of a namespace -/

theorem mem_keys_foldl_insertNew {ds : List Declaration} {seen : Entries String Declaration}
    {name : String} :
    name ∈ (ds.foldl (fun seen d => seen.insertNew d.name d) seen).keys ↔
      name ∈ seen.keys ∨ ∃ d ∈ ds, d.name = name := by
  induction ds generalizing seen with
  | nil => simp
  | cons d ds ih =>
    rw [List.foldl_cons, ih, Entries.mem_keys_insertNew, List.exists_mem_cons_iff, or_assoc,
      eq_comm (a := name)]

theorem key_eq_of_mem_foldl_insertNew {ds : List Declaration} {seen : Entries String Declaration}
    (hseen : ∀ e ∈ seen, e.1 = e.2.name) :
    ∀ e ∈ ds.foldl (fun seen d => seen.insertNew d.name d) seen, e.1 = e.2.name := by
  induction ds generalizing seen with
  | nil => exact hseen
  | cons d ds ih =>
    refine ih fun e he => ?_
    rcases Entries.mem_insertNew he with he | rfl
    · exact hseen e he
    · rfl

/-- Each namespace of an archive has a first declaration. -/
theorem exists_firstDeclaration {contents : Archive.Contents} {ns : String}
    (h : ns ∈ contents.namespaces) :
    ∃ d ∈ firstDeclarations contents.declarations, d.name = ns := by
  rw [Archive.Contents.namespaces, Text.mem_sortedOnce, List.mem_map] at h
  have hkey : ns ∈ (contents.declarations.foldl (fun (seen : Entries String Declaration) d =>
      seen.insertNew d.name d) []).keys := mem_keys_foldl_insertNew.2 (.inr h)
  obtain ⟨e, he, rfl⟩ := List.mem_map.1 hkey
  refine ⟨e.2, List.mem_map_of_mem he, ?_⟩
  exact (key_eq_of_mem_foldl_insertNew (by simp) e he).symm

/-- What the overrides of no target set, those of any label do not set. -/
theorem Overrides.not_mem_keys_of_deps (o : Overrides) {key : String}
    (h : ∀ label attributes, o.deps.get? label = some attributes → attributes.get? key = none)
    (label : String) : key ∉ ((o.deps.get? label).getD []).keys := by
  rcases hget : o.deps.get? label with _ | attributes
  · simp [Entries.keys]
  · exact Entries.get?_eq_none_iff.1 (h _ _ hget)

namespace Library.Context

variable {c : Context}

/-! ## The names of targets -/

/-- No override of a target renames it. -/
def KeepsNames (c : Context) : Prop :=
  ∀ label attributes, c.overrides.deps.get? label = some attributes →
    attributes.get? "name" = none

theorem name_not_mem_overridesAt (h : c.KeepsNames) (name : String) :
    "name" ∉ (c.overridesAt name).keys :=
  c.overrides.not_mem_keys_of_deps h _

/-- A finished target has its attributes with their labels in order. -/
theorem finished_eq_ok {settings : Settings} {kind : TargetKind} {attributes : Attributes}
    {t : Target} (h : Sources.finished settings kind attributes = .ok t) :
    t.kind = kind ∧ attributes.normalize true = .ok t.attributes := by
  obtain ⟨normalized, hnormalized, h⟩ := Except.bind_eq_ok h
  split at h
  · obtain ⟨_, -, h⟩ := Except.bind_eq_ok h
    cases h
    exact ⟨rfl, hnormalized⟩
  · cases h
    exact ⟨rfl, hnormalized⟩

/-- A finished target has the name that its attributes had. -/
theorem name_of_finished {settings : Settings} {kind : TargetKind} {attributes : Attributes}
    {name : String} {t : Target} (h : Sources.finished settings kind attributes = .ok t)
    (hname : attributes.get? "name" = some (.str name)) : t.name = .ok name := by
  have hnot : "name" ∉ Attributes.labelAttributes := by decide
  have hget := Attributes.get?_normalize (finished_eq_ok h).2 hnot
  rw [Target.name, hget, hname]
  rfl

theorem finished_of_importTarget {archive : Path} {library : String} {t : Target}
    (h : (c.importTarget archive library).Yields t) :
    Sources.finished c.settings .archiveImport (c.importAttributes archive library) = .ok t := by
  rw [importTarget] at h
  split at h
  · obtain ⟨_, hthrow, -⟩ := h.bind
    exact hthrow.throw.elim
  · dsimp only at h
    split at h
    · obtain ⟨_, -, hfinished⟩ := h.bind
      exact hfinished.of
    · exact h.of

theorem name_of_importTarget (hnames : c.KeepsNames) {archive : Path} {library : String}
    {t : Target} (h : (c.importTarget archive library).Yields t) :
    t.name = .ok (Label.munge library) := by
  refine name_of_finished (finished_of_importTarget h)
    (Attributes.get?_merge_of_first (by simp [Entries.keys]) ?_)
  simp only [List.mem_cons, List.not_mem_nil, or_false, forall_eq_or_imp, forall_eq]
  refine ⟨?_, name_not_mem_overridesAt hnames _⟩
  split <;> simp [Entries.keys]

theorem name_of_moduleTarget (hnames : c.KeepsNames) {library : String} {d : Declaration}
    {t : Target} (h : c.moduleTarget library d = .ok t) :
    t.name = .ok (Label.compiled library d.name) := by
  obtain ⟨needed, -, h⟩ := Except.bind_eq_ok h
  refine name_of_finished h (Attributes.get?_merge_of_first (by simp [Entries.keys]) ?_)
  simp only [List.mem_cons, List.not_mem_nil, or_false, forall_eq_or_imp, forall_eq]
  exact ⟨by simp [Entries.keys], name_not_mem_overridesAt hnames _⟩

/-! ## All targets -/

theorem mem_libraries {s : ScannedLibrary} : s ∈ c.libraries ↔ s ∈ c.index.scanned := by
  rw [libraries, List.mem_mergeSort]

/-- The targets of a library are among all targets. -/
theorem exists_targetsOf {targets : List Target} (h : c.targets.Yields targets)
    {s : ScannedLibrary} (hs : s ∈ c.index.scanned) :
    ∃ ts, (c.targetsOf s).Yields ts ∧ ∀ t ∈ ts, t ∈ targets := by
  obtain ⟨lists, hlists, hpure⟩ := h.bind
  obtain rfl := hpure.pure
  obtain ⟨ts, hts, hyields⟩ := exists_right_of_forall₂ hlists.mapM (mem_libraries.2 hs)
  exact ⟨ts, hyields, fun t ht => List.mem_append_left _ (List.mem_flatten_of_mem hts ht)⟩

/-- Each library has a target that is named after it. -/
theorem exists_import (hnames : c.KeepsNames) {targets : List Target}
    (h : c.targets.Yields targets) {s : ScannedLibrary} (hs : s ∈ c.index.scanned) :
    ∃ t ∈ targets, t.name = .ok (Label.munge s.library) := by
  obtain ⟨ts, hts, hmem⟩ := exists_targetsOf h hs
  obtain ⟨imported, himported, hrest⟩ := hts.bind
  obtain ⟨modules, -, hpure⟩ := hrest.bind
  obtain rfl := hpure.pure
  exact ⟨imported, hmem _ List.mem_cons_self, name_of_importTarget hnames himported⟩

/-- Each namespace of a library that is compiled has a target that is named after both. -/
theorem exists_module (hnames : c.KeepsNames) {targets : List Target}
    (h : c.targets.Yields targets) {s : ScannedLibrary} (hs : s ∈ c.index.scanned) {ns : String}
    (hns : ns ∈ s.contents.namespaces) (hcompiled : c.index.compiles ns = true) :
    ∃ t ∈ targets, t.name = .ok (Label.compiled s.library ns) := by
  obtain ⟨ts, hts, hmem⟩ := exists_targetsOf h hs
  obtain ⟨imported, -, hrest⟩ := hts.bind
  obtain ⟨modules, hmodules, hpure⟩ := hrest.bind
  obtain rfl := hpure.pure
  obtain ⟨d, hd, rfl⟩ := exists_firstDeclaration hns
  have hfilter : d ∈ (firstDeclarations s.contents.declarations).filter
      fun d => c.index.compiles d.name := List.mem_filter.2 ⟨hd, hcompiled⟩
  obtain ⟨t, ht, hmodule⟩ :=
    exists_right_of_forall₂ (Except.forall₂_of_mapM hmodules.of) hfilter
  exact ⟨t, hmem t (List.mem_cons_of_mem _ ht), name_of_moduleTarget hnames hmodule⟩

/-! ## Opening the archives anew -/

/-- The targets of a library, whose archive is opened when they are made. -/
def rescannedTargetsOf (c : Context) (s : ScannedLibrary) : Run (List Target) := do
  let imported ← Run.logged (c.importTarget s.archive s.library)
  let contents ← Run.scan s.archive
  return imported :: (← Run.logged (Logged.of (c.moduleTargets { s with contents := contents })))

/-- The targets of all libraries, whose archives are opened when they are made. -/
def rescannedTargets (c : Context) : Run (List Target) := do
  return (← c.libraries.mapM c.rescannedTargetsOf).flatten ++ [c.allTarget]

/-- Where an archive is known already, it does not matter what is in the tree by now. -/
theorem rescannedTargetsOf_eq {s : ScannedLibrary} {session : Session}
    (h : session.archives.get? s.archive = some s.contents) :
    (c.rescannedTargetsOf s).run.run session =
      (Run.logged (c.targetsOf s)).run.run session := by
  rw [rescannedTargetsOf, targetsOf, Run.run_logged_bind]
  refine Run.run_bind_congr rfl fun imported mid himported => ?_
  have hmid : mid.archives.get? s.archive = some s.contents :=
    (Run.Keeps.logged _).of_yields himported _ _ h
  rw [Run.run_scan_bind hmid, Run.run_logged_bind]
  rfl

/-- Making the targets scans the archives anew. Where the session knows them as the index does, this
is no different from making the targets from the index. -/
theorem rescannedTargets_eq {session : Session}
    (h : ∀ s ∈ c.index.scanned, session.archives.get? s.archive = some s.contents) :
    c.rescannedTargets.run.run session = (Run.logged c.targets).run.run session := by
  have hlists : ∀ (l : List ScannedLibrary) (session : Session),
      (∀ s ∈ l, session.archives.get? s.archive = some s.contents) →
      (l.mapM c.rescannedTargetsOf).run.run session =
        (Run.logged (l.mapM c.targetsOf)).run.run session := by
    intro l
    induction l with
    | nil => exact fun session _ => rfl
    | cons s l ih =>
      intro session hknown
      rw [List.mapM_cons, List.mapM_cons, Run.run_logged_bind]
      refine Run.run_bind_congr (rescannedTargetsOf_eq (hknown s List.mem_cons_self)) ?_
      intro ts mid hts
      rw [Run.run_logged_bind]
      refine Run.run_bind_congr (ih mid fun s' hs' => ?_) fun _ _ _ => rfl
      exact (Run.Keeps.logged _).of_yields hts _ _ (hknown s' (List.mem_cons_of_mem s hs'))
  rw [rescannedTargets, targets, Run.run_logged_bind]
  exact Run.run_bind_congr (hlists c.libraries session fun s hs => h s (mem_libraries.1 hs))
    fun _ _ _ => rfl

end Library.Context

/-! ## The names behind labels -/

namespace Index

variable {i : Index} {tag : String}

/-- However the targets of the libraries are made from the index for the repository of the tag, as
long as nothing renames them, one has the name. -/
def Names (i : Index) (tag name : String) : Prop :=
  ∀ c : Library.Context, c.index = i → c.settings.repositoryTag = tag → c.KeepsNames →
    ∀ targets, c.targets.Yields targets → ∃ t ∈ targets, t.name = .ok name

theorem names_library {s : ScannedLibrary} (hs : s ∈ i.scanned) :
    i.Names tag (Label.munge s.library) := by
  rintro c rfl - hnames targets htargets
  exact Library.Context.exists_import hnames htargets hs

/-- What stands for a namespace of a library is a target. -/
theorem names_of_libraryTargets {ns name : String} (h : i.libraryTargets.get? ns = some name) :
    i.Names tag name := by
  obtain ⟨⟨ns', library⟩, hmem, hpair⟩ := List.mem_map.1 (Entries.mem_of_get?_ofList h)
  obtain ⟨rfl, rfl⟩ := Prod.mk.inj hpair
  obtain ⟨s, hs, hmem⟩ := List.mem_flatMap.1 hmem
  obtain ⟨ns', hns, hpair⟩ := List.mem_map.1 hmem
  obtain ⟨rfl, rfl⟩ := Prod.mk.inj hpair
  rw [targetName]
  split
  · next hcompiled =>
    rintro c rfl - hnames targets htargets
    exact Library.Context.exists_module hnames htargets hs hns hcompiled
  · exact names_library hs

/-- An archive that holds a class is of a library. -/
theorem exists_library_of_class {className : String} {archive : Path}
    (h : i.classArchives.get? className = some archive) :
    ∃ s ∈ i.scanned, i.archiveLibraries.get? archive = some s.library := by
  obtain ⟨s, hs, hmem⟩ := List.mem_flatMap.1 (Entries.mem_of_get?_ofList h)
  obtain ⟨className', -, hpair⟩ := List.mem_map.1 hmem
  obtain ⟨rfl, rfl⟩ := Prod.mk.inj hpair
  have hthere : (s.archive, s.library) ∈ i.scanned.map fun s => (s.archive, s.library) :=
    List.mem_map_of_mem hs
  -- the table may name another library that has the archive, but always one that is there
  obtain ⟨library, hlibrary⟩ := Entries.exists_get?_ofList hthere
  obtain ⟨s', hs', hpair⟩ := List.mem_map.1 (Entries.mem_of_get?_ofList hlibrary)
  obtain ⟨-, rfl⟩ := Prod.mk.inj hpair
  exact ⟨s', hs', hlibrary⟩

end Index

namespace LabelTables

variable {i : Index} {tag : String} {t : LabelTables}

/-- The tables are those of an index, with or without the project's sources. -/
structure Of (i : Index) (tag : String) (t : LabelTables) : Prop where
  libraryTargets : t.libraryTargets = i.libraryTargets
  classArchives : t.classArchives = i.classArchives
  archiveLibraries : t.archiveLibraries = i.archiveLibraries
  tag : t.tag = tag

theorem of_labelTables : Of i tag (i.labelTables tag) := ⟨rfl, rfl, rfl, rfl⟩

theorem of_libraryLabelTables : Of i tag (i.libraryLabelTables tag) := ⟨rfl, rfl, rfl, rfl⟩

/-- The label is that of a target of the libraries. -/
def Refers (i : Index) (tag label : String) : Prop :=
  ∃ name, label = Label.qualify tag name ∧ i.Names tag name

namespace Of

/-- Looking a class up never fails. -/
theorem exists_classLabel? (h : Of i tag t) (className : String) :
    ∃ found, t.classLabel? className = .ok found ∧ ∀ label ∈ found, Refers i tag label := by
  rw [classLabel?, h.classArchives]
  rcases hclass : i.classArchives.get? className with _ | archive
  · exact ⟨none, rfl, by simp⟩
  · obtain ⟨s, hs, hlibrary⟩ := i.exists_library_of_class hclass
    refine ⟨some (Label.qualify tag (Label.munge s.library)), ?_, ?_⟩
    · simp only [archiveLabel, h.archiveLibraries, hlibrary, h.tag]
      rfl
    · intro label hlabel
      rw [Option.mem_some_iff] at hlabel
      exact ⟨_, hlabel.symm, Index.names_library hs⟩

theorem exists_classLabels (h : Of i tag t) (classNames : List String) :
    ∃ labels, t.classLabels classNames = .ok labels ∧ ∀ label ∈ labels, Refers i tag label := by
  obtain ⟨found, hfound, hrefers⟩ := Except.exists_mapM h.exists_classLabel? classNames
  refine ⟨Text.sortedOnce (found.filterMap id), by rw [classLabels, hfound]; rfl, ?_⟩
  intro label hlabel
  rw [Text.mem_sortedOnce, List.mem_filterMap] at hlabel
  obtain ⟨_, hmem, rfl⟩ := hlabel
  exact hrefers _ hmem _ rfl

/-- A required namespace is another one of the project's sources, or stands for a target. -/
theorem refers_of_requireLabels (h : Of i tag t) {d : Declaration} {label : String}
    (hlabel : label ∈ t.requireLabels d) :
    (∃ ns ∈ d.requires, ns ≠ d.name ∧ t.sourceLabels.get? ns = some label) ∨
      Refers i tag label := by
  rw [requireLabels, Text.mem_sortedOnce, List.mem_filterMap] at hlabel
  obtain ⟨ns, hns, hlabel⟩ := hlabel
  rw [namespaceLabel?] at hlabel
  split at hlabel
  · next hsource =>
    obtain ⟨hrequired, hother⟩ := List.mem_filter.1 hns
    exact .inl ⟨ns, hrequired, bne_iff_ne.1 hother, hsource.trans hlabel⟩
  · obtain ⟨name, hname, rfl⟩ := Option.map_eq_some_iff.1 hlabel
    rw [h.libraryTargets] at hname
    exact .inr ⟨name, by rw [h.tag], Index.names_of_libraryTargets hname⟩

/-- What a declaration depends on is always found. It is some other namespace of the sources, or
something in the libraries. -/
theorem exists_dependencies_apart (h : Of i tag t) (d : Declaration) :
    ∃ labels, t.dependencies d = .ok labels ∧ ∀ label ∈ labels,
      (∃ ns ∈ d.requires, ns ≠ d.name ∧ t.sourceLabels.get? ns = some label) ∨
        Refers i tag label := by
  obtain ⟨imported, himported, hrefers⟩ := h.exists_classLabels d.imports
  obtain ⟨extended, hextended, hrefers'⟩ := h.exists_classLabels d.extendedClass?.toList
  refine ⟨Text.sortedOnce (t.requireLabels d ++ imported ++ extended), ?_, ?_⟩
  · rw [dependencies, importLabels, himported, extendedLabels, hextended]
    rfl
  · intro label hlabel
    rw [Text.mem_sortedOnce, List.mem_append, List.mem_append] at hlabel
    rcases hlabel with (hlabel | hlabel) | hlabel
    · exact h.refers_of_requireLabels hlabel
    · exact .inr (hrefers label hlabel)
    · exact .inr (hrefers' label hlabel)

/-- What a declaration depends on is always found, and refers to what is there. -/
theorem exists_dependencies (h : Of i tag t) (d : Declaration) :
    ∃ labels, t.dependencies d = .ok labels ∧ ∀ label ∈ labels,
      (∃ ns ∈ d.requires, t.sourceLabels.get? ns = some label) ∨ Refers i tag label := by
  obtain ⟨labels, hlabels, hfrom⟩ := h.exists_dependencies_apart d
  refine ⟨labels, hlabels, fun label hlabel => (hfrom label hlabel).imp_left ?_⟩
  rintro ⟨ns, hns, -, hget⟩
  exact ⟨ns, hns, hget⟩

end Of

end LabelTables

/-- The targets of the libraries that are made when the session is `mid` or any later one: from what
the index holds of the archives, or from archives that are opened for them. The files of the later
session may be any. -/
def Library.Context.Makes (c : Library.Context) (mid : Session) (targets : List Target) : Prop :=
  c.targets.Yields targets ∨
    ∃ after last, mid.Keeps after ∧ c.rescannedTargets.Yields after targets last

/-- Whatever index is built, what a declaration depends on is found by it, with or without the
project's sources, and each label that is not one of the sources names a target of the libraries
that is made, unless overrides rename targets. -/
theorem labels_of_index {base : Path} {named : List String} {b : Basis} {i : Index}
    {before mid : Session} (h : (Run.index base named b).Yields before i mid) (tag : String)
    (d : Declaration) :
    ∀ t, t = i.labelTables tag ∨ t = i.libraryLabelTables tag →
      ∃ labels, t.dependencies d = .ok labels ∧ ∀ label ∈ labels,
        (∃ ns ∈ d.requires, t.sourceLabels.get? ns = some label) ∨
          ∃ name, label = Label.qualify tag name ∧
            ∀ c : Library.Context, c.index = i → c.settings.repositoryTag = tag →
              c.KeepsNames → ∀ targets, c.Makes mid targets →
                ∃ target ∈ targets, target.name = .ok name := by
  intro t ht
  have hof : LabelTables.Of i tag t := by
    rcases ht with rfl | rfl
    · exact LabelTables.of_labelTables
    · exact LabelTables.of_libraryLabelTables
  obtain ⟨labels, hlabels, hrefers⟩ := hof.exists_dependencies d
  refine ⟨labels, hlabels, fun label hlabel => (hrefers label hlabel).imp_right ?_⟩
  rintro ⟨name, hname, hnames⟩
  refine ⟨name, hname, fun c hc htag hkeeps targets hmakes => ?_⟩
  refine hnames c hc htag hkeeps targets ?_
  rcases hmakes with htargets | ⟨after, last, hafter, hrescanned⟩
  · exact htargets
  · subst hc
    have hknown : ∀ s ∈ c.index.scanned, after.archives.get? s.archive = some s.contents :=
      fun s hs => hafter _ _ (Run.known_of_index h s hs)
    rw [Run.Yields, Library.Context.rescannedTargets_eq hknown] at hrescanned
    exact (Run.Yields.reading hrescanned).1

/-! ## A small index -/

/-- A declaration of the name that requires the namespaces. -/
def smallDeclaration (name : String) (requires : List String) : Declaration :=
  ⟨name, requires, [], none, [], ""⟩

/-- A session that knows an archive with one namespace. -/
def smallSession : Session where
  tree := {}
  archives := [(.parse "/r/a.jar", ⟨[smallDeclaration "a.core" []], []⟩)]

/-- A classpath with that archive. -/
def smallBasis : Basis where
  classpath := [{ path := .parse "/r/a.jar", library := some "g/a" }]

/-- A namespace that requires the one of the archive depends on its target. -/
theorem labels_of_smallIndex : ∃ i mid,
    (Run.index (.parse "/w") [] smallBasis).Yields smallSession i mid ∧
      ∃ name, "@deps//:ns_g_a_a_core" = Label.qualify "@deps" name ∧
        ∀ c : Library.Context, c.index = i → c.settings.repositoryTag = "@deps" →
          c.KeepsNames → ∀ targets, c.Makes mid targets →
            ∃ target ∈ targets, target.name = .ok name := by
  obtain ⟨i, mid, hindex, hholds⟩ := Run.exists_yields
    (Run.index (.parse "/w") [] smallBasis) smallSession
    (fun i => i.sourceLabels.isEmpty &&
      match (i.labelTables "@deps").dependencies (smallDeclaration "b" ["a.core"]) with
      | .ok labels => labels == ["@deps//:ns_g_a_a_core"]
      | .error _ => false)
    (by decide +kernel)
  refine ⟨i, mid, hindex, ?_⟩
  obtain ⟨labels, hlabels, hnames⟩ := labels_of_index hindex "@deps"
    (smallDeclaration "b" ["a.core"]) _ (.inl rfl)
  rw [hlabels, Bool.and_eq_true, List.isEmpty_iff, beq_iff_eq] at hholds
  obtain ⟨hsources, rfl⟩ := hholds
  refine (hnames _ List.mem_cons_self).resolve_left ?_
  rintro ⟨ns, -, hget⟩
  rw [Index.labelTables, hsources] at hget
  cases hget

end BuildFiles
