import BuildFiles.Proofs.Library.Labels
import BuildFiles.Proofs.Sources.Generation

/-!
# The labels of source files name targets

The index goes through the files below the folders of sources, all at once, and generation goes
through the folders that are found there, one by one. Both come to the same files as far as these
are not ignored: the folder of such a file is found (`parent_mem_folders`), and the file is among
those of its folder (`exists_mem_filesIn`). So the label that a namespace of the sources has in the
index is that of a target in a build file that is generated: `isBacked_of_sourceLabels`.
-/

namespace BuildFiles

variable {t : Tree} {b : Basis} {base folder p : Path} {d : Declaration}

/-- A file below the folders of sources starts with a declaration. -/
structure Basis.Declares (b : Basis) (t : Tree) (p : Path) (d : Declaration) : Prop where
  file : ∃ e ∈ b.sourceEntries, p ∈ Source.files t e.path .clj
  declaration : Source.declarationOf? t p .clj = .ok (some d)

/-! ## The labels in the index -/

theorem Source.declarationOf?_of_indexed? {platform : Platform} {q : Path}
    (h : (indexed? t platform q).Yields (some (p, d))) :
    q = p ∧ declarationOf? t p platform = .ok (some d) := by
  rw [indexed?] at h
  split at h
  · next found hfound =>
    obtain ⟨d', rfl, hpair⟩ := Option.map_eq_some_iff.1 h.pure.symm
    obtain ⟨rfl, rfl⟩ := Prod.mk.inj hpair
    exact ⟨rfl, hfound⟩
  · split at h
    · obtain ⟨_, -, hpure⟩ := h.bind
      cases hpure.pure
    · exact h.throw.elim

/-- What is found below a folder is a file there with its declaration. -/
theorem Source.mem_files_of_declarationsIn {platform : Platform} {found : List (Path × Declaration)}
    (h : (declarationsIn t folder platform).Yields found) (hmem : (p, d) ∈ found) :
    p ∈ files t folder platform ∧ declarationOf? t p platform = .ok (some d) := by
  obtain ⟨_, -, h⟩ := h.bind
  obtain ⟨indexed, hindexed, hpure⟩ := h.bind
  rw [hpure.pure, List.mem_filterMap] at hmem
  obtain ⟨_, hsome, rfl⟩ := hmem
  obtain ⟨q, hq, hyields⟩ := exists_left_of_forall₂ hindexed.mapM hsome
  obtain ⟨rfl, hdeclaration⟩ := Source.declarationOf?_of_indexed? hyields
  exact ⟨hq, hdeclaration⟩

/-- The label of a namespace is that of a file that declares it. -/
theorem Index.exists_declares {labels : Entries String String} {ns label : String}
    (h : (sourceLabelsOf t base b).Yields labels) (hget : labels.get? ns = some label) :
    ∃ p d, b.Declares t p d ∧ d.name = ns ∧ Label.ofFile base p = .ok label := by
  obtain ⟨each, heach, hpure⟩ := h.bind
  rw [hpure.pure] at hget
  obtain ⟨pairs, hpairs, hmem⟩ := List.mem_flatten.1 (Entries.mem_of_get?_ofList hget)
  obtain ⟨e, he, hlabels⟩ := exists_left_of_forall₂ heach.mapM hpairs
  obtain ⟨_, -, hlabels⟩ := hlabels.bind
  obtain ⟨found, hfound, hlabels⟩ := hlabels.bind
  obtain ⟨⟨p, d⟩, hp, hpair⟩ := exists_left_of_forall₂ hlabels.mapM hmem
  obtain ⟨label', hlabel, hpure⟩ := hpair.bind
  obtain ⟨rfl, rfl⟩ := Prod.mk.inj hpure.pure
  obtain ⟨hfile, hdeclaration⟩ := Source.mem_files_of_declarationsIn hfound hp
  exact ⟨p, d, ⟨⟨e, he, hfile⟩, hdeclaration⟩, rfl, hlabel.of⟩

/-- An index holds the labels of the sources that were there. -/
theorem Index.sourceLabels_of_index {named : List String} {i : Index} {s s' : Session}
    (h : (Run.index base named b).Yields s i s') :
    (sourceLabelsOf s.tree base b).Yields i.sourceLabels := by
  obtain ⟨claimed, mid, hclaimed, h⟩ := h.bind
  obtain ⟨scanned, mid', hscanned, hbuild⟩ := h.bind
  obtain ⟨labels, hlabels, hrest⟩ := hbuild.reading.1.bind
  obtain ⟨_, -, hpure⟩ := hrest.bind
  rw [hpure.pure]
  rwa [(Run.KeepsTree.mapM Run.KeepsTree.scanLibrary claimed).of_yields hscanned,
    (Run.KeepsTree.logged _).of_yields hclaimed] at hlabels

/-! ## The folders and their files -/

/-- A file that is gone through is a file of the tree, some way below where the folder is. -/
theorem Source.exists_place_of_mem_files {platform : Platform} (hp : p ∈ files t folder platform) :
    ∃ place way n, t.locate folder = .ok place ∧ p = (folder.join (.ofNames way)).entry n ∧
      t.isFile (place ++ (way ++ [n])) = true ∧ platform.reads n = true := by
  have hreads := reads_of_mem_files hp
  rw [files] at hp
  split at hp
  · cases hp
  · next place hplace =>
    obtain ⟨way, hway, rfl⟩ := List.mem_map.1 hp
    rw [List.mem_mergeSort] at hway
    obtain ⟨hne, hfile, -⟩ := Sources.mem_filesWalked.1 (List.mem_of_mem_filter hway)
    obtain ⟨way, n, rfl⟩ := List.eq_nil_or_concat' way |>.resolve_left hne
    have hentry : folder.join (.ofNames (way ++ [n])) = (folder.join (.ofNames way)).entry n := by
      simp [Path.entry, Path.join_ofNames]
    rw [hentry, Path.name_entry] at hreads
    exact ⟨place, way, n, hplace, hentry, hfile, hreads⟩

/-- The way to a resolved folder is the one that its names say. -/
theorem Source.exists_way_of_mem_files {platform : Platform} (hfolder : folder.IsResolved)
    (hp : p ∈ files t folder platform) : ∃ way n, p = (folder.join (.ofNames way)).entry n ∧
      t.isFile (folder.names ++ (way ++ [n])) = true ∧ platform.reads n = true := by
  obtain ⟨place, way, n, hplace, hentry, hfile, hreads⟩ := exists_place_of_mem_files hp
  rw [Tree.locate_eq_ok hfolder hplace] at hfile
  exact ⟨way, n, hentry, hfile, hreads⟩

namespace Sources

variable {ignored : List Path} {l : Layout}

/-- The folder of a source file that is not ignored is found. -/
theorem parent_mem_folders (ht : t.IsProper) (hresolved : ∀ e ∈ b.sourceEntries, e.path.IsResolved)
    (hp : b.Declares t p d) (hkept : p.isIgnored ignored = false) :
    p.parent ∈ folders t (roots (b.sourceEntries.map (·.path)) ignored) ignored := by
  obtain ⟨e, he, hfile⟩ := hp.file
  obtain ⟨way, n, rfl, hfile, -⟩ := Source.exists_way_of_mem_files (hresolved e he) hfile
  rw [Path.parent_entry]
  -- the file lies in its folder and the folder below the root, so neither of them is ignored
  have hholder : (e.path.join (.ofNames way)).isIgnored ignored = false :=
    Path.isIgnored_eq_false (Path.entry_isWithin _ n) hkept
  have hroot : e.path.isIgnored ignored = false :=
    Path.isIgnored_eq_false (Path.isWithin_iff_join.2 ⟨way, rfl⟩) hholder
  refine mem_folders.2 ⟨e.path, ?_, (mem_foldersOf ht (hresolved e he)).2 ⟨?_, hroot, ?_⟩⟩
  · rw [roots, List.mem_eraseDups, List.mem_filter, hroot]
    exact ⟨List.mem_map_of_mem he, rfl⟩
  · exact Tree.isFolder_of_isFile hfile (by simp)
  · by_cases hway : way = []
    · exact .inl (by rw [hway, Path.join_ofNames, List.append_nil])
    · exact .inr ⟨way, [], n, hway, rfl, by rwa [List.append_nil], by rwa [List.append_nil]⟩

/-- A source file that is not ignored is one of those in its folder. -/
theorem exists_mem_filesIn (ht : t.IsProper)
    (hresolved : ∀ e ∈ b.sourceEntries, e.path.IsResolved) (hp : b.Declares t p d)
    (hkept : p.isIgnored l.ignored = false) :
    ∃ files, l.filesIn t p.parent .clj = .ok files ∧ p ∈ files := by
  obtain ⟨e, he, hfile⟩ := hp.file
  obtain ⟨way, n, rfl, hfile, hreads⟩ := Source.exists_way_of_mem_files (hresolved e he) hfile
  rw [← List.append_assoc] at hfile
  rw [Path.parent_entry]
  have hanchor : (e.path.join (.ofNames way)).anchor = .root := (hresolved e he).1
  obtain ⟨files, hfiles, -, hmem⟩ :=
    Layout.exists_filesIn ht hanchor (Tree.isFolder_of_isFile hfile (by simp)) l .clj
  exact ⟨files, hfiles, (hmem _).2 ⟨n, rfl, hfile, hreads, hkept⟩⟩

/-! ## The targets of the files -/

/-- Neither an override nor what a source file says of itself names the library of a file. -/
structure Context.KeepsNames (c : Context) (b : Basis) (t : Tree) : Prop where
  all : c.overrides.clojureLibrary.get? "name" = none
  one : ∀ label attributes, c.overrides.deps.get? label = some attributes →
    attributes.get? "name" = none
  inline : ∀ p d attributes, b.Declares t p d → Inline.library d = .ok attributes →
    attributes.get? "name" = none

/-- The library of a file has the name of the file, if nothing names it otherwise. -/
theorem Context.KeepsNames.exists_library {c : Context} (h : c.KeepsNames b t)
    (hp : b.Declares t p d) {targets : List Target} (htargets : (c.targets t p).Yields targets) :
    ∃ target ∈ targets, target.kind = .sourceLibrary ∧ target.name = .ok p.name := by
  rw [Context.targets, hp.declaration] at htargets
  obtain ⟨label, strip, needed, inline, library, -, hinline, -, hlibrary, htargets⟩ :=
    exists_of_targetsFor htargets
  have hname : library.name = .ok p.name := by
    refine Library.Context.name_of_finished hlibrary
      (Attributes.get?_merge_of_first (by simp [Entries.keys]) ?_)
    simp only [List.forall_mem_cons]
    refine ⟨?_, ?_, by simp [Entries.keys], Entries.get?_eq_none_iff.1 h.all,
      c.overrides.not_mem_keys_of_deps h.one label,
      Entries.get?_eq_none_iff.1 (h.inline p d inline hp hinline),
      List.forall_mem_nil _⟩
    · rw [fileAttributes]
      split <;> simp [Entries.keys]
    · rcases stripAttributes_eq strip with hstrip | ⟨s, hstrip⟩ <;> simp [hstrip, Entries.keys]
  have hmem : library ∈ targets := by
    rcases htargets with rfl | ⟨test, attributes, rfl, -⟩ <;> exact List.mem_cons_self
  exact ⟨library, hmem, (Library.Context.finished_eq_ok hlibrary).1, hname⟩

/-- The build file of a folder holds a target. -/
def HasTarget (t : Tree) (folder : Path) (target : Target) : Prop :=
  ∃ before rendered after, target.render = .ok rendered ∧
    HasText t folder (BuildFile.sections (before ++ rendered :: after) ++ "\n")

namespace Layout

/-- The targets of the files in a folder are sections of the text of its build file. -/
theorem exists_sections {text : String} {files : List Path} (h : (l.text t folder).Yields text)
    (hfiles : l.filesIn t folder .clj = .ok files) (hp : p ∈ files) :
    ∃ targets, (l.targets t p).Yields targets ∧ ∀ target ∈ targets, ∃ before rendered after,
      target.render = .ok rendered ∧
        text = BuildFile.sections (before ++ rendered :: after) ++ "\n" := by
  obtain ⟨own, subtree, head, sections, hown, -, -, hsections, rfl⟩ := Layout.Yields.text h
  obtain ⟨files', hfiles', hown⟩ := hown.bind
  obtain rfl := Except.ok.inj (hfiles.symm.trans hfiles'.of)
  obtain ⟨each, heach, hflatten⟩ := hown.bind
  obtain rfl := hflatten.pure
  obtain ⟨targets, htargets, hyields⟩ := exists_right_of_forall₂ heach.mapM hp
  refine ⟨targets, hyields, fun target htarget => ?_⟩
  obtain ⟨rendered, hmem, hrendered⟩ := exists_right_of_forall₂ hsections
    (List.mem_append_left _ (List.mem_flatten_of_mem htargets htarget))
  obtain ⟨before, after, rfl⟩ := List.append_of_mem hmem
  exact ⟨head :: before, rendered, after, hrendered, rfl⟩

/-- The label is that of the library of a file: it tells the folder of the file, which gets a build
file, and the name of the file, and the build file there holds a library of that name. -/
structure LeadsTo (l : Layout) (t : Tree) (label : String) (p : Path) : Prop where
  folder : p.parent ∈ l.folders
  text : ∃ way, p.parent = l.base.join (.ofNames way) ∧
    label = "//" ++ "/".intercalate way ++ ":" ++ p.name
  target : ∃ target, HasTarget t p.parent target ∧ target.kind = .sourceLibrary ∧
    target.name = .ok p.name

/-- The label of a namespace is that of a source file that declares it, and leads to the library of
that file unless the file is ignored. The sources are those of the first tree, the build files those
of the second. -/
structure IsBacked (l : Layout) (b : Basis) (t t' : Tree) (ns label : String) : Prop where
  declared : ∃ p d, b.Declares t p d ∧ d.name = ns ∧ Label.ofFile l.base p = .ok label
  kept : ∀ p d, b.Declares t p d → d.name = ns → Label.ofFile l.base p = .ok label →
    p.isIgnored l.ignored = false → l.LeadsTo t' label p

end Layout

/-! ## From labels to targets -/

section Generated

variable {s s' : Session} {t' : Tree} {written : List Path} {label : String} (ht : t.IsProper)
  (hresolved : ∀ e ∈ b.sourceEntries, e.path.IsResolved)
  (hfound : foldersFound t (roots (b.sourceEntries.map (·.path)) l.ignored) l.ignored =
    .ok l.folders)
include ht hresolved hfound

theorem placed_of_foldersFound :
    ∀ p ∈ l.folders, p.anchor = .root ∧ t.isFolder p.names = true := by
  rw [foldersFound_eq_ok hfound]
  exact fun p hp => placed_of_mem_folders ht (isResolved_of_mem_roots hresolved) hp

theorem generated_of_foldersFound (hs : s.tree = t)
    (hrun : (l.folders.mapM fun folder => Run.writing fun t => l.generate t folder).Yields s
      written s') : l.Generated t s'.tree l.folders := by
  have hnodup : l.folders.Nodup := foldersFound_eq_ok hfound ▸ nodup_folders ..
  have hnone : l.Generated t s.tree [] := hs ▸ .refl ht l
  exact hnone.of_mapM hnodup (placed_of_foldersFound ht hresolved hfound) hrun

/-- When all build files are generated, the label of a source file that is not ignored leads to the
library of that file. -/
theorem leadsTo_of_generated (hnames : l.KeepsNames b t) (h : l.Generated t t' l.folders)
    (hp : b.Declares t p d) (hlabel : Label.ofFile l.base p = .ok label)
    (hkept : p.isIgnored l.ignored = false) : l.LeadsTo t' label p := by
  have hmem : p.parent ∈ l.folders := by
    rw [foldersFound_eq_ok hfound]
    exact parent_mem_folders ht hresolved hp hkept
  obtain ⟨hanchor, hthere⟩ := placed_of_foldersFound ht hresolved hfound _ hmem
  obtain ⟨text, htext, hhas⟩ := h.exists_hasText hmem hanchor hthere
  obtain ⟨files, hfiles, hfile⟩ := exists_mem_filesIn ht hresolved hp hkept
  obtain ⟨targets, htargets, hsections⟩ := Layout.exists_sections htext.yields hfiles hfile
  obtain ⟨target, htarget, hkind, hname⟩ := hnames.exists_library hp htargets
  obtain ⟨before, rendered, after, hrendered, rfl⟩ := hsections target htarget
  exact ⟨hmem, Label.exists_way_of_inPackage hlabel,
    target, ⟨before, rendered, after, hrendered, hhas⟩, hkind, hname⟩

end Generated

/-- Once the build files of all folders below the sources are there, each label that the index has
for a namespace of the sources leads to the library of the file that it is the label of, unless that
file is ignored. So does each label that a declaration depends on, if it is not that of a target of
the libraries. The folders of sources are resolved paths, as those of every basis that comes from
resolving a manifest are. -/
theorem isBacked_of_sourceLabels {l : Layout} {b : Basis} {named : List String}
    {s mid start after : Session} {written : List Path} (ht : s.tree.IsProper)
    (hresolved : ∀ e ∈ b.sourceEntries, e.path.IsResolved)
    (hindex : (Run.index l.base named b).Yields s l.index mid)
    (hfound : foldersFound s.tree (roots (b.sourceEntries.map (·.path)) l.ignored) l.ignored =
      .ok l.folders)
    (hnames : l.KeepsNames b s.tree) (hstart : start.tree = s.tree)
    (hrun : (l.folders.mapM fun folder => Run.writing fun t => l.generate t folder).Yields start
      written after) :
    (∀ ns label, l.index.sourceLabels.get? ns = some label →
      l.IsBacked b s.tree after.tree ns label) ∧
    ∀ d labels, (l.index.labelTables l.settings.repositoryTag).dependencies d = .ok labels →
      ∀ label ∈ labels, (∃ ns ∈ d.requires, l.IsBacked b s.tree after.tree ns label) ∨
        LabelTables.Refers l.index l.settings.repositoryTag label := by
  have hgenerated := generated_of_foldersFound ht hresolved hfound hstart hrun
  have hbacked : ∀ ns label, l.index.sourceLabels.get? ns = some label →
      l.IsBacked b s.tree after.tree ns label := by
    intro ns label hget
    refine ⟨Index.exists_declares (Index.sourceLabels_of_index hindex) hget, ?_⟩
    intro p d hp _ hlabel hkept
    exact leadsTo_of_generated ht hresolved hfound hnames hgenerated hp hlabel hkept
  refine ⟨hbacked, fun d labels hlabels label hlabel => ?_⟩
  obtain ⟨labels', hlabels', hfrom⟩ :=
    (LabelTables.of_labelTables (i := l.index)).exists_dependencies d
  obtain rfl := Except.ok.inj (hlabels.symm.trans hlabels')
  refine (hfrom label hlabel).imp_left ?_
  rintro ⟨ns, hns, hget⟩
  exact ⟨ns, hns, hbacked ns label hget⟩

/-! ## A small project -/

/-- A project with two folders of sources. -/
def keptProject : Session where
  tree.files := [(["w", "lib", "y.clj"], "(ns y)".toUTF8), (["w", "old", "z.clj"], "(ns z)".toUTF8)]

/-- The folders of the project as a basis. -/
def keptSources : Basis where
  classpath := [{ path := ⟨.root, ["w", "lib"]⟩ }, { path := ⟨.root, ["w", "old"]⟩ }]

/-- The layout that ignores the second folder. -/
def keptLayout (i : Index) : Layout where
  index := i
  overrides := {}
  settings := {}
  base := ⟨.root, ["w"]⟩
  folders := [⟨.root, ["w", "lib"]⟩]
  ignored := [⟨.root, ["w", "old"]⟩]

/-- The build files of the project can be generated. -/
def generatesKept (i : Index) : Bool :=
  match ((keptLayout i).folders.mapM fun folder => Run.writing fun t =>
    (keptLayout i).generate t folder).run.run keptProject with
  | (.ok _, _) => true
  | _ => false

theorem foldersFound_keptProject :
    foldersFound keptProject.tree (roots (keptSources.sourceEntries.map (·.path))
      [⟨.root, ["w", "old"]⟩]) [⟨.root, ["w", "old"]⟩] = .ok [⟨.root, ["w", "lib"]⟩] := by
  have hroots : roots (keptSources.sourceEntries.map (·.path)) [⟨.root, ["w", "old"]⟩] =
      [⟨.root, ["w", "lib"]⟩] := by
    decide +kernel
  have hfound : ∀ root ∈ [Path.mk .root ["w", "lib"]],
      ∃ there, keptProject.tree.hasFolder root = .ok there :=
    List.forall_mem_singleton.2 ⟨true, by with_unfolding_all rfl⟩
  have hfolders : ([Path.mk .root ["w", "lib"]].flatMap
      (foldersOf keptProject.tree [⟨.root, ["w", "old"]⟩])).eraseDups =
        [⟨.root, ["w", "lib"]⟩] := by
    decide +kernel
  rw [hroots, foldersFound_of_hasFolder hfound, folders, hfolders, List.mergeSort_singleton]

/-- The namespace that a file declares without saying more of itself. -/
def plainName? (t : Tree) (p : Path) : Option String :=
  match Source.declarationOf? t p .clj with
  | .ok (some d) => if d.metadata.isEmpty then some d.name else none
  | _ => none

theorem exists_of_plainName? {name : String} (h : plainName? t p = some name) :
    ∃ d, Source.declarationOf? t p .clj = .ok (some d) ∧ d.metadata = [] ∧ d.name = name := by
  unfold plainName? at h
  split at h
  · next d hd =>
    split_ifs at h with hempty
    exact ⟨d, hd, List.isEmpty_iff.1 hempty, Option.some.inj h⟩
  · cases h

theorem plainName?_keptProject :
    plainName? keptProject.tree ⟨.root, ["w", "lib", "y.clj"]⟩ = some "y" ∧
      plainName? keptProject.tree ⟨.root, ["w", "old", "z.clj"]⟩ = some "z" := by
  decide +kernel

theorem keepsNames_keptLayout (i : Index) :
    (keptLayout i).KeepsNames keptSources keptProject.tree := by
  refine ⟨rfl, fun _ _ => (by rintro ⟨⟩), fun p d attributes hp hinline => ?_⟩
  have hfiles : (keptSources.sourceEntries.flatMap fun e =>
      Source.files keptProject.tree e.path .clj) =
        [⟨.root, ["w", "lib", "y.clj"]⟩, ⟨.root, ["w", "old", "z.clj"]⟩] := by
    decide +kernel
  have hmem := List.mem_flatMap.2 hp.file
  rw [hfiles, List.mem_cons, List.mem_singleton] at hmem
  obtain ⟨name, hname⟩ : ∃ name, plainName? keptProject.tree p = some name := by
    rcases hmem with rfl | rfl
    · exact ⟨_, plainName?_keptProject.1⟩
    · exact ⟨_, plainName?_keptProject.2⟩
  obtain ⟨d', hd', hempty, -⟩ := exists_of_plainName? hname
  obtain rfl := Option.some.inj (Except.ok.inj (hp.declaration.symm.trans hd'))
  rw [Inline.library, hempty] at hinline
  cases hinline
  rfl

theorem isResolved_keptSources : ∀ e ∈ keptSources.sourceEntries, e.path.IsResolved := by
  have hpaths : keptSources.sourceEntries.map (·.path) =
      [⟨.root, ["w", "lib"]⟩, ⟨.root, ["w", "old"]⟩] := rfl
  intro e he
  have hmem : e.path ∈ keptSources.sourceEntries.map (·.path) := List.mem_map_of_mem he
  rw [hpaths, List.mem_cons, List.mem_singleton] at hmem
  rcases hmem with hpath | hpath <;> rw [hpath] <;> exact ⟨rfl, by decide⟩

/-- The namespace of the folder that is kept has a label, which leads to the library of its file. -/
theorem isBacked_of_keptProject : ∃ i mid after,
    (Run.index (keptLayout i).base [] keptSources).Yields keptProject i mid ∧
      i.sourceLabels.get? "y" = some "//lib:y.clj" ∧
      (keptLayout i).LeadsTo after "//lib:y.clj" ⟨.root, ["w", "lib", "y.clj"]⟩ := by
  obtain ⟨i, mid, hindex, hholds⟩ := Run.exists_yields
    (Run.index ⟨.root, ["w"]⟩ [] keptSources) keptProject
    (fun i => i.sourceLabels.get? "y" == some "//lib:y.clj" && generatesKept i)
    (by decide +kernel)
  obtain ⟨hlabel, hgenerates⟩ := Bool.and_eq_true_iff.1 hholds
  rw [beq_iff_eq] at hlabel
  rw [generatesKept] at hgenerates
  split at hgenerates
  · next written after hrun =>
    obtain ⟨hbacked, -⟩ := isBacked_of_sourceLabels (l := keptLayout i) (by decide +kernel)
      isResolved_keptSources hindex foldersFound_keptProject (keepsNames_keptLayout i) rfl hrun
    obtain ⟨d, hd, -, hname⟩ := exists_of_plainName? plainName?_keptProject.1
    have hthere : Path.mk .root ["w", "lib", "y.clj"] ∈
        Source.files keptProject.tree ⟨.root, ["w", "lib"]⟩ .clj := by
      decide +kernel
    have hfile : Label.ofFile ⟨.root, ["w"]⟩ ⟨.root, ["w", "lib", "y.clj"]⟩ =
        .ok "//lib:y.clj" := by
      with_unfolding_all rfl
    exact ⟨i, mid, after.tree, hindex, hlabel,
      (hbacked "y" _ hlabel).kept _ d ⟨⟨_, List.mem_cons_self, hthere⟩, hd⟩ hname hfile rfl⟩
  · cases hgenerates

end Sources

end BuildFiles
