import BuildFiles.Proofs.Rule.Attributes
import BuildFiles.Proofs.Session
import BuildFiles.Proofs.Sources.Frame
import BuildFiles.Proofs.Sources.Subtrees
import BuildFiles.Proofs.Update

/-!
# Generating build files

Build files of folders are generated one after the other. `Generated` says what a tree becomes by
it: the files of the folders that are done hold their texts in full, the texts are those that the
sources had at first, and all else is as it was. One more folder keeps it so (`Generated.step`), and
so do all folders (`Generated.of_mapM`). A text has a section for each target
(`Layout.Yields.text`); those of the files come of layers of attributes (`IsFinished`), and with
validation on all of them have been checked (`Layout.checked_of_text`).
-/

namespace BuildFiles

namespace Sources

variable {t t' t'' : Tree} {folder p : Path} {done : List Path}

/-! ## Texts do not depend on what was said -/

theorem Context.steady_sayInline (d : Declaration) (what : String) (attributes : Attributes) :
    (sayInline d what attributes).IsSteady := by
  rw [sayInline]
  split
  · exact .pure ()
  · exact .say _

theorem Context.steady_testTarget (c : Context) (fileName label : String) (d : Declaration) :
    (c.testTarget fileName label d).IsSteady :=
  (Logged.IsSteady.of _).bind fun _ => (steady_sayInline ..).bind fun _ => .of _

/-- The targets of a file do not depend on what was said before. -/
theorem Context.steady_targetsFor (c : Context) (p : Path) (d : Declaration) :
    (c.targetsFor p d).IsSteady := by
  rw [targetsFor]
  split
  on_goal 1 => refine (Logged.IsSteady.say _).bind fun _ => ?_
  all_goals
    refine (Logged.IsSteady.of _).bind fun label => (Logged.IsSteady.of _).bind fun inline =>
      (steady_sayInline ..).bind fun _ => (Logged.IsSteady.of _).bind fun strip =>
        (Logged.IsSteady.of _).bind fun needed => (Logged.IsSteady.of _).bind fun library => ?_
    split
    · exact (c.steady_testTarget ..).bind fun _ => .pure _
    · exact .pure _

/-- The targets of a file do not depend on what was said before when the file is read for them,
either. -/
theorem Context.steady_targets (c : Context) (t : Tree) (p : Path) : (c.targets t p).IsSteady := by
  rw [targets]
  split
  · exact c.steady_targetsFor ..
  · exact (Logged.IsSteady.say _).bind fun _ => .pure _
  · exact (Logged.IsSteady.say _).bind fun _ => .pure _
  · exact .throw _

/-- The text of a build file does not depend on what was said before. -/
theorem Layout.steady_text (l : Layout) (t : Tree) (folder : Path) : (l.text t folder).IsSteady :=
  ((Logged.IsSteady.of _).bind fun files => (Logged.IsSteady.mapM (l.steady_targets t) files).bind
      fun _ => .pure _).bind fun _ => (Logged.IsSteady.of _).bind fun _ =>
    (Logged.IsSteady.of _).bind fun _ => (Logged.IsSteady.of _).bind fun _ =>
      (Logged.IsSteady.of _).bind fun _ => .pure _

/-! ## One build file -/

/-- The place of the build file of a folder. -/
def buildFile (folder : Path) : Location := folder.names ++ [BuildFile.fileName]

/-- The build file of a folder is the text, or reads as it. -/
def HasText (t : Tree) (folder : Path) (text : String) : Prop :=
  t.get? (buildFile folder) = some text.toUTF8 ∨
    t.readText (folder.entry BuildFile.fileName) = .ok text

/-- The build file tells which folder it is for. -/
theorem buildFile_inj {folder folder' : Path} (h : folder.anchor = .root)
    (h' : folder'.anchor = .root) (heq : buildFile folder = buildFile folder') :
    folder = folder' := by
  obtain ⟨anchor, names⟩ := folder
  obtain ⟨anchor', names'⟩ := folder'
  obtain rfl : names = names' := List.append_cancel_right heq
  rw [Path.mk.injEq]
  exact ⟨h.trans h'.symm, rfl⟩

namespace Layout

variable {l : Layout}

/-- Inversion: what was written is the text of the build file, into the folder that it is for, and
the tree is updated there and nowhere else. -/
theorem Yields.generate (h : (l.generate t folder).Yields (t', p)) :
    ∃ text changed, (l.text t folder).Yields text ∧
      t.update (folder.entry BuildFile.fileName) text = .ok (t', changed) ∧
      p = folder.entry BuildFile.fileName := by
  obtain ⟨text, htext, hrest⟩ := h.bind
  refine ⟨text, ?_⟩
  split at hrest
  · exact hrest.throw.elim
  · next t'' changed hupdate =>
    obtain ⟨_, -, hpure⟩ := hrest.bind
    obtain ⟨rfl, rfl⟩ := Prod.mk.inj hpure.pure
    exact ⟨changed, htext, hupdate, rfl⟩

/-- What a tree becomes when the build files of some folders are generated: these hold their texts
in full, and all else is as it was. -/
structure Generated (l : Layout) (t t' : Tree) (done : List Path) : Prop where
  /-- a file that read as the text before is left as it was -/
  whole : ∀ folder ∈ done, ∃ text, (l.text t folder).Returns text ∧
    (t'.get? (buildFile folder) = some text.toUTF8 ∨
      t'.get? (buildFile folder) = t.get? (buildFile folder) ∧
        t.readText (folder.entry BuildFile.fileName) = .ok text)
  kept : ∀ place, (∀ folder ∈ done, place ≠ buildFile folder) → t'.get? place = t.get? place
  sources : t.GainsBuildFiles t'
  proper : t'.IsProper

/-- Nothing has been generated at the beginning. -/
theorem Generated.refl (ht : t.IsProper) (l : Layout) : l.Generated t t [] :=
  ⟨nofun, fun _ _ => rfl, .refl t, ht⟩

/-- The build file of a folder that is done is the text that the sources had at first. -/
theorem Generated.exists_hasText (h : l.Generated t t' done) (hfolder : folder ∈ done)
    (hanchor : folder.anchor = .root) (hthere : t.isFolder folder.names = true) :
    ∃ text, (l.text t folder).Returns text ∧ HasText t' folder text := by
  obtain ⟨anchor, names⟩ := folder
  obtain rfl : anchor = .root := hanchor
  have hthere' : t'.isFolder names = true := (h.sources.folders names).symm.trans hthere
  obtain ⟨text, htext, hwhole⟩ := h.whole _ hfolder
  refine ⟨text, htext, hwhole.imp_right ?_⟩
  rintro ⟨hkept, hread⟩
  -- the file was left as it was since it read as the text, and so it does now
  refine (h.sources.toSameSources.readText_of_get? fun place hplace => ?_).ok_iff.1 hread
  rw [Tree.locate_eq_ok (Tree.isResolved_entry h.proper hthere' (by decide)) hplace]
  exact hkept.symm

/-- Generating the build file of one more folder adds that file to those that were generated. The
folders are the same ones, the files of the others stay, and the text is that of the tree before all
of them. -/
theorem Generated.step (h : l.Generated t t' done) (hfolder : t.isFolder folder.names = true)
    (hroot : ∀ p ∈ folder :: done, p.anchor = .root) (hnew : folder ∉ done)
    (hstep : (l.generate t' folder).Yields (t'', p)) : l.Generated t t'' (done ++ [folder]) := by
  obtain ⟨hanchor, hdone⟩ := List.forall_mem_cons.1 hroot
  obtain ⟨text, changed, htext, hupdate, -⟩ := Yields.generate hstep
  have hapart : ∀ f ∈ done, buildFile folder ≠ buildFile f := by
    intro f hf heq
    rw [buildFile_inj hanchor (hdone f hf) heq] at hnew
    exact hnew hf
  have hget : t'.get? (buildFile folder) = t.get? (buildFile folder) := h.kept _ hapart
  obtain ⟨anchor, names⟩ := folder
  obtain rfl : anchor = .root := hanchor
  have hthere : t'.isFolder names = true := (h.sources.folders names).symm.trans hfolder
  -- the text is the one that the sources had at first, as only build files were written since
  have hfirst : (l.text t ⟨.root, names⟩).Returns text := by
    rw [← text_eq h.sources.toSameSources.symm (Tree.hasFolder_of_isFolder h.proper hthere)]
    exact htext.returns (l.steady_text _ _)
  rcases Tree.update_eq_ok h.proper hthere hupdate with ⟨rfl, hread⟩ | ⟨rfl, hfree, hlocate⟩
  · refine ⟨?_, fun place hplace => ?_, h.sources, h.proper⟩
    · rw [List.forall_mem_append, List.forall_mem_singleton]
      refine ⟨h.whole, text, hfirst, .inr ⟨hget, ?_⟩⟩
      refine (h.sources.toSameSources.symm.readText_of_get? fun place hplace => ?_).ok_iff.1 hread
      rw [Tree.locate_eq_ok (Tree.isResolved_entry h.proper hthere (by decide)) hplace]
      exact hget
    · exact h.kept place (List.forall_mem_append.1 hplace).1
  · refine ⟨?_, fun place hplace => ?_, h.sources.trans (.put hthere _),
      h.proper.put hthere (by decide) hfree hlocate _⟩
    · rw [List.forall_mem_append, List.forall_mem_singleton]
      refine ⟨fun f hf => ?_, text, hfirst, .inl ?_⟩
      · obtain ⟨text', htext', hwhole⟩ := h.whole f hf
        refine ⟨text', htext', ?_⟩
        rw [Tree.get?_put, if_neg (by simpa [buildFile] using hapart f hf)]
        exact hwhole
      · rw [Tree.get?_put, if_pos (by simp [buildFile])]
    · obtain ⟨hplace, hne⟩ := List.forall_mem_append.1 hplace
      rw [Tree.get?_put, if_neg (by simpa [buildFile] using (hne _ List.mem_cons_self).symm)]
      exact h.kept place hplace

/-- Generating build files one after the other generates all of them, by the step for one folder. -/
theorem Generated.of_mapM {rest written : List Path} {s s' : Session}
    (h : l.Generated t s.tree done) (hnodup : (done ++ rest).Nodup)
    (hfolders : ∀ p ∈ done ++ rest, p.anchor = .root ∧ t.isFolder p.names = true)
    (hrun : (rest.mapM fun folder => Run.writing fun t => l.generate t folder).Yields s
      written s') : l.Generated t s'.tree (done ++ rest) := by
  induction rest generalizing done s written with
  | nil =>
    rw [List.mapM_nil] at hrun
    obtain ⟨rfl, rfl⟩ := hrun.pure
    rwa [List.append_nil]
  | cons folder rest ih =>
    rw [List.mapM_cons] at hrun
    obtain ⟨p, mid, hp, hrun⟩ := hrun.bind
    obtain ⟨ps, mid', hps, hpure⟩ := hrun.bind
    obtain ⟨rfl, rfl⟩ := hpure.pure
    have hnew : folder ∉ done := fun hmem =>
      List.disjoint_of_nodup_append hnodup hmem List.mem_cons_self
    have hroot : ∀ p ∈ folder :: done, p.anchor = .root := by
      rw [List.forall_mem_cons]
      exact ⟨(hfolders folder (by simp)).1, fun p hp =>
        (hfolders p (List.mem_append_left _ hp)).1⟩
    have hmid := h.step (hfolders folder (by simp)).2 hroot hnew hp.writing.1
    rw [List.append_cons] at hnodup hfolders ⊢
    exact ih hmid hnodup hfolders hps

/-- The paths that are given are those of the build files. -/
theorem entries_of_mapM {folders written : List Path} {s s' : Session}
    (h : (folders.mapM fun folder => Run.writing fun t => l.generate t folder).Yields s written
      s') :
    written = folders.map fun folder => folder.entry BuildFile.fileName := by
  have hstep : ∀ folder p (s₁ s₂ : Session), True →
      (Run.writing fun t => l.generate t folder).Yields s₁ p s₂ →
        True ∧ folder.entry BuildFile.fileName = p := by
    intro folder p s₁ s₂ _ hp
    obtain ⟨text, changed, -, -, hentry⟩ := Yields.generate hp.writing.1
    exact ⟨trivial, hentry.symm⟩
  obtain ⟨-, hall⟩ := Run.Yields.mapM hstep trivial h
  rw [← List.forall₂_eq_eq_eq, List.forall₂_map_right_iff]
  exact hall.flip.imp fun _ _ => Eq.symm

end Layout

/-! ## The targets of a file -/

/-- The attributes of the library of a file, in layers. -/
def Context.libraryAttributes (c : Context) (p : Path) (d : Declaration) (label : String)
    (strip : Option String) (needed : List String) (inline : Attributes) : Attributes :=
  Attributes.merge [
    [("name", .str p.name), ("deps", .texts [c.settings.baseLabel])],
    fileAttributes (c.index.compiles d.name && !isTestFile p.name) p.name d,
    stripAttributes strip,
    [("deps", .texts needed)],
    c.overrides.clojureLibrary,
    c.overridesAt label,
    inline]

/-- The targets of a file are its library, and the test after it if there is one. -/
theorem Context.exists_of_targetsFor {c : Context} {d : Declaration} {targets : List Target}
    (h : (c.targetsFor p d).Yields targets) : ∃ label strip needed inline library,
      Label.ofFile c.base p = .ok label ∧ Inline.library d = .ok inline ∧
      (c.index.labelTables c.settings.repositoryTag).dependencies d = .ok needed ∧
      finished c.settings .sourceLibrary (c.libraryAttributes p d label strip needed inline) =
        .ok library ∧
      (targets = [library] ∨ ∃ test layers, targets = [library, test] ∧
        finished c.settings .test (Attributes.merge layers) = .ok test) := by
  rw [targetsFor] at h
  split at h
  on_goal 1 => obtain ⟨_, -, h⟩ := h.bind
  all_goals
    obtain ⟨label, hlabel, h⟩ := h.bind
    obtain ⟨inline, hinline, h⟩ := h.bind
    obtain ⟨_, -, h⟩ := h.bind
    obtain ⟨strip, -, h⟩ := h.bind
    obtain ⟨needed, hneeded, h⟩ := h.bind
    obtain ⟨library, hlibrary, h⟩ := h.bind
    refine ⟨label, strip, needed, inline, library, hlabel.of, hinline.of, hneeded.of,
      hlibrary.of, ?_⟩
    split at h
    · obtain ⟨test, htest, h⟩ := h.bind
      obtain ⟨_, -, htest⟩ := htest.bind
      obtain ⟨_, -, htest⟩ := htest.bind
      exact .inr ⟨test, _, h.pure, htest.of⟩
    · exact .inl h.pure

/-- The target comes of layers of attributes. -/
def IsFinished (settings : Settings) (target : Target) : Prop :=
  ∃ kind layers, finished settings kind (Attributes.merge layers) = .ok target

/-- Every target of a file is finished: its labels are in order, and they were checked if the
settings ask for it. -/
theorem Context.isFinished_of_targetsFor {c : Context} {d : Declaration} {targets : List Target}
    (h : (c.targetsFor p d).Yields targets) : ∀ target ∈ targets, IsFinished c.settings target := by
  obtain ⟨_, _, _, _, library, -, -, -, hlibrary, htargets⟩ := Context.exists_of_targetsFor h
  have hfirst : IsFinished c.settings library := ⟨_, _, hlibrary⟩
  rcases htargets with rfl | ⟨test, layers, rfl, htest⟩
  · exact List.forall_mem_singleton.2 hfirst
  · exact List.forall_mem_cons.2 ⟨hfirst, List.forall_mem_singleton.2 ⟨_, _, htest⟩⟩

/-- Every target that is read from a file is finished. -/
theorem Context.isFinished_of_targets {c : Context} {targets : List Target}
    (h : (c.targets t p).Yields targets) : ∀ target ∈ targets, IsFinished c.settings target := by
  rw [Context.targets] at h
  split at h
  · exact isFinished_of_targetsFor h
  · obtain ⟨_, -, h⟩ := h.bind
    simp [h.pure]
  · obtain ⟨_, -, h⟩ := h.bind
    simp [h.pure]
  · exact h.throw.elim

/-- Every target of a folder for its files is finished. -/
theorem Layout.isFinished_of_fileTargets {l : Layout} {own : List Target}
    (h : (l.fileTargets t folder).Yields own) : ∀ target ∈ own, IsFinished l.settings target := by
  obtain ⟨files, -, h⟩ := h.bind
  obtain ⟨each, heach, hpure⟩ := h.bind
  obtain rfl := hpure.pure
  intro target htarget
  obtain ⟨targets, htargets, hmem⟩ := List.mem_flatten.1 htarget
  obtain ⟨p, -, hp⟩ := exists_left_of_forall₂ heach.mapM htargets
  exact Context.isFinished_of_targets hp target hmem

/-- A text has a section for each target of the files and of the subtree. -/
theorem Layout.Yields.text {l : Layout} {text : String} (h : (l.text t folder).Yields text) :
    ∃ own subtree head sections, (l.fileTargets t folder).Yields own ∧
      l.subtreeTargets t folder = .ok subtree ∧ Layout.head l.settings = .ok head ∧
      List.Forall₂ (fun target text => target.render = .ok text) (own ++ subtree) sections ∧
      text = BuildFile.sections (head :: sections) ++ "\n" := by
  obtain ⟨own, hown, h⟩ := h.bind
  obtain ⟨rules, hrules, h⟩ := h.bind
  obtain ⟨subtree, hsubtree, h⟩ := h.bind
  obtain ⟨others, hothers, h⟩ := h.bind
  obtain ⟨head, hhead, hpure⟩ := h.bind
  exact ⟨own, subtree, head, rules ++ others, hown, hsubtree.of, hhead.of,
    List.rel_append (Except.forall₂_of_mapM hrules.of) (Except.forall₂_of_mapM hothers.of),
    hpure.pure⟩

/-! ## Validation -/

/-- A finished target passes the validation that the settings ask for. -/
theorem IsFinished.validate {settings : Settings} {target : Target} (h : IsFinished settings target)
    (hvalidate : settings.validate = true) : target.validate = .ok () := by
  obtain ⟨kind, layers, h⟩ := h
  obtain ⟨a, -, hrest⟩ := Except.bind_eq_ok h
  rw [hvalidate, if_pos rfl] at hrest
  obtain ⟨u, hu, hpure⟩ := Except.bind_eq_ok hrest
  obtain rfl := Except.ok.inj hpure
  exact hu

/-- A label in a package is well formed. -/
theorem isLabel_inPackage {base : Path} {name label : String}
    (h : Label.inPackage base folder name = .ok label) :
    Attributes.isLabel (.str label) = true := by
  obtain ⟨rel, -, hpure⟩ := Except.bind_eq_ok h
  obtain rfl := Except.ok.inj hpure
  simp [Attributes.isLabel, Attributes.labelStarts, Text.startsWith]

/-- The labels of folders are all well formed. -/
theorem Layout.isLabel_of_labelsOf {l : Layout} {folders : List Path} {name : String}
    {value : Datum} (h : l.labelsOf folders name = .ok value) :
    ∃ ss, value = .texts ss ∧ ∀ s ∈ ss, Attributes.isLabel (.str s) = true := by
  obtain ⟨labels, hlabels, hpure⟩ := Except.bind_eq_ok h
  obtain rfl := Except.ok.inj hpure
  refine ⟨labels, rfl, fun label hlabel => ?_⟩
  obtain ⟨folder, -, hfolder⟩ := exists_left_of_forall₂ (Except.forall₂_of_mapM hlabels) hlabel
  exact isLabel_inPackage hfolder

/-- So an aggregate holds labels only, wherever labels belong. -/
theorem Layout.holdsLabels_of_aggregateTargets {l : Layout} {strip : Option String} {a : Aggregate}
    {targets : List Target} (h : l.aggregateTargets t folder strip a = .ok targets) :
    ∀ target ∈ targets, target.attributes.HoldsLabels := by
  obtain ⟨files, -, h⟩ := Except.bind_eq_ok h
  obtain ⟨deps, hdeps, h⟩ := Except.bind_eq_ok h
  obtain ⟨data, -, h⟩ := Except.bind_eq_ok h
  obtain rfl := Except.ok.inj h
  obtain ⟨ss, rfl, hss⟩ := isLabel_of_labelsOf hdeps
  have hkeys : ∀ key ∈ Attributes.labelAttributes, key = "deps" ∨ key = "runtime_deps" := by
    simp [Attributes.labelAttributes]
  simp only [List.forall_mem_cons]
  refine ⟨fun key hkey value hvalue => ?_, fun key hkey value hvalue => ?_, List.forall_mem_nil _⟩
  · rcases stripAttributes_eq strip with hstrip | ⟨s, hstrip⟩ <;> rw [hstrip] at hvalue <;>
      rcases hkeys key hkey with rfl | rfl
    · exact ⟨ss, (Option.some.inj hvalue).symm, hss⟩
    · cases hvalue
    · exact ⟨ss, (Option.some.inj hvalue).symm, hss⟩
    · cases hvalue
  · rcases hkeys key hkey with rfl | rfl <;> cases hvalue

/-- The targets for the folders below one come from aggregates. -/
theorem Layout.exists_of_subtreeTargets {l : Layout} {subtree : List Target} {target : Target}
    (h : l.subtreeTargets t folder = .ok subtree) (htarget : target ∈ subtree) :
    ∃ strip a targets, l.aggregateTargets t folder strip a = .ok targets ∧ target ∈ targets := by
  obtain ⟨strip, -, h⟩ := Except.bind_eq_ok h
  obtain ⟨each, heach, hpure⟩ := Except.bind_eq_ok h
  obtain rfl := Except.ok.inj hpure
  obtain ⟨targets, htargets, hmem⟩ := List.mem_flatten.1 htarget
  obtain ⟨a, -, ha⟩ := exists_left_of_forall₂ (Except.forall₂_of_mapM heach) htargets
  exact ⟨strip, a, targets, ha, hmem⟩

/-- Every label of the targets of a folder is one. -/
def Layout.Checked (l : Layout) (t : Tree) (folder : Path) : Prop :=
  ∃ own subtree, (l.fileTargets t folder).Yields own ∧ l.subtreeTargets t folder = .ok subtree ∧
    ∀ target ∈ own ++ subtree, target.validate = .ok ()

/-- With validation on there is no text of a build file before all labels in it are checked. -/
theorem Layout.checked_of_text {l : Layout} {text : String} (hvalidate : l.settings.validate = true)
    (h : (l.text t folder).Yields text) : l.Checked t folder := by
  obtain ⟨own, subtree, -, -, hown, hsubtree, -⟩ := Layout.Yields.text h
  refine ⟨own, subtree, hown, hsubtree, List.forall_mem_append.2
    ⟨fun target htarget => ?_, fun target htarget => ?_⟩⟩
  · exact (isFinished_of_fileTargets hown target htarget).validate hvalidate
  · obtain ⟨strip, a, targets, ha, hmem⟩ := exists_of_subtreeTargets hsubtree htarget
    exact (holdsLabels_of_aggregateTargets ha target hmem).validate

end Sources

end BuildFiles
