import BuildFiles.Proofs.Label
import BuildFiles.Proofs.Sources.Folders

/-!
# Targets of subtrees

Each folder that is found gets four targets, one for each `Role`. They can be made
(`exists_subtreeTargets`), hold the files of the folder, and refer to the targets of the same role
in the folders directly below. A label refers to one target at most: `Refers.unique`.
-/

namespace BuildFiles.Sources

/-- What a target that stands for a subtree is for: the dialect that its files are of, the name that
it has, and the attributes under which it holds the files of its folder and refers to the targets of
the folders below. -/
structure Role where
  platform : Platform
  name : String
  held : String
  refers : String

/-- The roles of the two targets that stand for a subtree in a dialect. -/
def Aggregate.roles (a : Aggregate) : List Role :=
  [⟨a.platform, a.library, "resources", "deps"⟩, ⟨a.platform, a.files, "srcs", "data"⟩]

/-- The roles of all targets that stand for subtrees. -/
def roles : List Role := aggregates.flatMap Aggregate.roles

/-- The attributes under which targets refer to others. -/
def referringKeys : List String := ["deps", "data"]

variable {l : Layout} {t : Tree} {folder folder' p : Path} {roots : List Path} {r : Role}
  {target target' : Target} {label : String}

/-! ## Children and files -/

theorem mem_children {folders : List Path} :
    p ∈ children folders folder ↔ p ∈ folders ∧ p.parent = folder := by
  rw [children, Path.sorted, List.mem_mergeSort, List.mem_filter, beq_iff_eq]

/-- The files in a folder can be told. -/
theorem Layout.exists_filesIn (ht : t.IsProper) (hanchor : folder.anchor = .root)
    (hfolder : t.isFolder folder.names = true) (l : Layout) (platform : Platform) :
    ∃ files, l.filesIn t folder platform = .ok files ∧ files.Nodup ∧
      ∀ p, p ∈ files ↔ ∃ n, p = folder.entry n ∧ t.isFile (folder.names ++ [n]) = true ∧
        platform.reads n = true ∧ p.isIgnored l.ignored = false := by
  have hlocate : t.locate folder = .ok folder.names := by
    obtain ⟨anchor, names⟩ := folder
    obtain rfl : anchor = .root := hanchor
    exact Tree.locate_of_isFolder ht hfolder
  refine ⟨_, by rw [Layout.filesIn, hlocate]; exact if_pos hfolder, ?_, fun p => ?_⟩
  · refine ((Tree.nodup_fileNames t _).filter _ |>.map ?_).filter _
    intro n n' hn
    simpa [Path.join_ofNames] using hn
  · simp only [List.mem_filter, List.mem_map, Tree.mem_fileNames, Bool.not_eq_true']
    constructor
    · rintro ⟨⟨n, ⟨hfile, hreads⟩, rfl⟩, hignored⟩
      exact ⟨n, rfl, hfile, hreads, hignored⟩
    · rintro ⟨n, rfl, hfile, hreads, hignored⟩
      exact ⟨⟨n, ⟨hfile, hreads⟩, rfl⟩, hignored⟩

/-- The files in a folder that is found can be told: they are those with a name that the platform
reads and a path that is not ignored, each once. -/
theorem Layout.IsFound.exists_filesIn (h : l.IsFound t roots) (hfolder : folder ∈ l.folders)
    (platform : Platform) : ∃ files, l.filesIn t folder platform = .ok files ∧ files.Nodup ∧
      ∀ p, p ∈ files ↔ ∃ n, p = folder.entry n ∧ t.isFile (folder.names ++ [n]) = true ∧
        platform.reads n = true ∧ p.isIgnored l.ignored = false :=
  Layout.exists_filesIn h.proper (h.anchor_eq hfolder) (h.isFolder hfolder) l platform

theorem Layout.exists_labels (h : l.IsFound t roots) (folder : Path) (name : String) :
    ∃ labels, (children l.folders folder).mapM (fun p => Label.inPackage l.base p name) =
      .ok labels := by
  obtain ⟨labels, hlabels, -⟩ := Except.exists_mapM_of_mem (l := children l.folders folder)
    (f := fun p => Label.inPackage l.base p name) (R := fun _ _ => True) fun p hp =>
      ⟨_, Label.inPackage_eq_ok (h.isWithin_base (mem_children.1 hp).1) name, trivial⟩
  exact ⟨labels, hlabels⟩

theorem Layout.exists_stripPrefix? (h : ∀ d ∈ l.sourcePaths, ∃ s, d = .str s) (folder : Path) :
    ∃ strip, l.stripPrefix? folder = .ok strip := by
  rw [Context.stripPrefix?]
  generalize l.sourcePaths = paths at h
  induction paths with
  | nil => exact ⟨none, rfl⟩
  | cons d paths ih =>
    obtain ⟨⟨s, rfl⟩, hpaths⟩ := List.forall_mem_cons.1 h
    rw [Context.stripPrefix?.search]
    split
    · exact ⟨some s, rfl⟩
    · exact ih hpaths

/-! ## The targets of one folder -/

/-- The target is that of the role for a folder. -/
structure Role.Fits (r : Role) (l : Layout) (t : Tree) (folder : Path) (target : Target) :
    Prop where
  name : target.attributes.get? "name" = some (.str r.name)
  held : ∃ files, l.filesIn t folder r.platform = .ok files ∧
    target.attributes.get? r.held = some (.texts (files.map Path.name))
  refers : ∃ labels, (children l.folders folder).mapM (fun p => Label.inPackage l.base p r.name) =
      .ok labels ∧ target.attributes.get? r.refers = some (.texts labels)
  only : ∀ key ∈ referringKeys, key ≠ r.refers → target.attributes.get? key = none

theorem stripAttributes_eq (strip : Option String) : Context.stripAttributes strip = [] ∨
    ∃ s, Context.stripAttributes strip = [("resource_strip_prefix", .str s)] := by
  rcases strip with _ | s
  · exact .inl rfl
  · rw [Context.stripAttributes]
    split
    · exact .inl rfl
    · exact .inr ⟨s, rfl⟩

/-- The aggregate targets of a folder can be made if the labels of the folders right below it can,
and each of them fits its role. -/
theorem exists_aggregateTargets {files : List Path} {a : Aggregate}
    {libraryLabels fileLabels : List String} (strip : Option String)
    (hfiles : l.filesIn t folder a.platform = .ok files)
    (hlibrary : (children l.folders folder).mapM
      (fun p => Label.inPackage l.base p a.library) = .ok libraryLabels)
    (hgroup : (children l.folders folder).mapM
      (fun p => Label.inPackage l.base p a.files) = .ok fileLabels) :
    ∃ targets, l.aggregateTargets t folder strip a = .ok targets ∧
      List.Forall₂ (fun r target => r.Fits l t folder target) a.roles targets := by
  have hmade : l.aggregateTargets t folder strip a = .ok
      [⟨.aggregateLibrary,
          [("name", .str a.library), ("resources", .texts (files.map Path.name))]
            ++ Context.stripAttributes strip ++ [("deps", .texts libraryLabels)]⟩,
        ⟨.aggregateFiles,
          [("name", .str a.files), ("srcs", .texts (files.map Path.name)),
            ("data", .texts fileLabels)]⟩] := by
    simp only [Layout.aggregateTargets, Layout.labelsOf, hfiles, hlibrary, hgroup]
    rfl
  have hkeys : ∀ key ∈ referringKeys, key = "deps" ∨ key = "data" := by simp [referringKeys]
  refine ⟨_, hmade, .cons ⟨rfl, ⟨files, hfiles, rfl⟩, ⟨libraryLabels, hlibrary, ?_⟩, ?_⟩
    (.cons ⟨rfl, ⟨files, hfiles, rfl⟩, ⟨fileLabels, hgroup, rfl⟩, ?_⟩ .nil)⟩
  · rcases stripAttributes_eq strip with hstrip | ⟨s, hstrip⟩ <;> rw [hstrip] <;> rfl
  · intro key hkey hne
    obtain rfl : key = "data" := (hkeys key hkey).resolve_left hne
    rcases stripAttributes_eq strip with hstrip | ⟨s, hstrip⟩ <;> rw [hstrip] <;> rfl
  · intro key hkey hne
    obtain rfl : key = "deps" := (hkeys key hkey).resolve_right hne
    rfl

/-- The targets that stand for the subtree of a folder that is found can be made, and there is one
for each role. -/
theorem exists_subtreeTargets (h : l.IsFound t roots) (hfolder : folder ∈ l.folders) :
    ∃ targets, l.subtreeTargets t folder = .ok targets ∧
      List.Forall₂ (fun r target => r.Fits l t folder target) roles targets := by
  obtain ⟨strip, hstrip⟩ := Layout.exists_stripPrefix? h.texts folder
  have heach : ∀ a ∈ aggregates, ∃ targets, l.aggregateTargets t folder strip a = .ok targets ∧
      List.Forall₂ (fun r target => r.Fits l t folder target) a.roles targets := by
    intro a _
    obtain ⟨files, hfiles, -⟩ := h.exists_filesIn hfolder a.platform
    obtain ⟨libraryLabels, hlibrary⟩ := Layout.exists_labels h folder a.library
    obtain ⟨fileLabels, hgroup⟩ := Layout.exists_labels h folder a.files
    exact exists_aggregateTargets strip hfiles hlibrary hgroup
  obtain ⟨each, hmapM, hall⟩ := Except.exists_mapM_of_mem heach
  refine ⟨each.flatten, ?_, ?_⟩
  · rw [Layout.subtreeTargets, hstrip]
    exact congrArg (· >>= fun each => pure each.flatten) hmapM
  rw [roles, List.flatMap_def]
  exact List.rel_flatten (List.forall₂_map_left_iff.2 hall)

/-! ## Labels and targets -/

/-- The label is that of the target, which is one of those that stand for the subtree of the
folder. -/
def Layout.Refers (l : Layout) (t : Tree) (label : String) (folder : Path) (target : Target) :
    Prop :=
  folder ∈ l.folders ∧ (∃ targets, l.subtreeTargets t folder = .ok targets ∧ target ∈ targets) ∧
    ∃ name, target.attributes.get? "name" = some (.str name) ∧
      Label.inPackage l.base folder name = .ok label

theorem Layout.Refers.exists_role (h : l.IsFound t roots)
    (hrefers : l.Refers t label folder target) : ∃ r ∈ roles, r.Fits l t folder target ∧
      Label.inPackage l.base folder r.name = .ok label := by
  obtain ⟨hfolder, ⟨targets, htargets, hmem⟩, name, hname, hlabel⟩ := hrefers
  obtain ⟨targets', htargets', hall⟩ := exists_subtreeTargets h hfolder
  obtain rfl := Except.ok.inj (htargets.symm.trans htargets')
  obtain ⟨r, hr, hfits⟩ := exists_left_of_forall₂ hall hmem
  obtain rfl : r.name = name := by
    rw [hfits.name] at hname
    exact Datum.str.inj (Option.some.inj hname)
  exact ⟨r, hr, hfits, hlabel⟩

theorem nodup_roleNames : (roles.map Role.name).Nodup := by decide

theorem not_mem_roleName : ∀ r ∈ roles, ':' ∉ r.name.toList := by decide

theorem get?_name_of_forall₂ {rs : List Role} {targets : List Target}
    (h : List.Forall₂ (fun r target => r.Fits l t folder target) rs targets) :
    targets.map (fun target => target.attributes.get? "name") =
      (rs.map Role.name).map fun name => some (.str name) := by
  induction h with
  | nil => rfl
  | cons hfits _ ih => rw [List.map_cons, List.map_cons, List.map_cons, hfits.name, ih]

/-- A label refers to one target at most. -/
theorem Layout.Refers.unique (h : l.IsFound t roots) (hrefers : l.Refers t label folder target)
    (hrefers' : l.Refers t label folder' target') : folder = folder' ∧ target = target' := by
  obtain ⟨r, hr, hfits, hlabel⟩ := hrefers.exists_role h
  obtain ⟨r', hr', hfits', hlabel'⟩ := hrefers'.exists_role h
  obtain ⟨hfolder, ⟨targets, htargets, hmem⟩, -⟩ := hrefers
  obtain ⟨hfolder', ⟨targets', htargets', hmem'⟩, -⟩ := hrefers'
  -- the label tells the folder and the name, and the targets of a folder have different names
  obtain ⟨rfl, hname⟩ := Label.inPackage_inj (h.isWithin_base hfolder) (h.isWithin_base hfolder')
    (fun n hn => (h.proper.isName (h.isFolder hfolder) hn).isSegment)
    (fun n hn => (h.proper.isName (h.isFolder hfolder') hn).isSegment)
    (not_mem_roleName r hr) (not_mem_roleName r' hr') hlabel hlabel'
  obtain rfl := Except.ok.inj (htargets.symm.trans htargets')
  obtain ⟨targets', htargets', hall⟩ := exists_subtreeTargets h hfolder
  obtain rfl := Except.ok.inj (htargets.symm.trans htargets')
  have hnodup : (targets.map fun target => target.attributes.get? "name").Nodup := by
    rw [get?_name_of_forall₂ hall]
    exact nodup_roleNames.map fun _ _ heq => Datum.str.inj (Option.some.inj heq)
  refine ⟨rfl, List.inj_on_of_nodup_map hnodup hmem hmem' ?_⟩
  rw [hfits.name, hfits'.name, hname]

end BuildFiles.Sources
