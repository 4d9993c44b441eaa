import BuildFiles.Proofs.Library.Imports
import BuildFiles.Proofs.Sources.Labels

/-!
# No source file depends on itself

Only the name of a namespace keeps a file from depending on itself: what a declaration requires of
its own name is passed over, and nothing compares labels. That is enough. The label of a file tells
the file (`Label.ofFile_inj`), and a file has one declaration, so a label that another namespace has
is that of another file. The labels of libraries start with the tag of their repository, as no label
of a file does (`Label.ofFile_ne_qualify`).
-/

namespace BuildFiles

variable {t : Tree} {b : Basis} {base p p' : Path} {d : Declaration} {label : String}

/-! ## What the label of a file tells -/

/-- The path has a label from which it can be told. -/
structure Path.IsLabelled (p base : Path) : Prop where
  legible : p.IsLegible
  within : p.parent.isWithin base = true
  name : p.names ≠ [] ∧ ':' ∉ p.name.toList

namespace Label

/-- The label of a file tells the file. -/
theorem ofFile_inj (hp : p.IsLabelled base) (hp' : p'.IsLabelled base)
    (h : ofFile base p = .ok label) (h' : ofFile base p' = .ok label) : p = p' := by
  obtain ⟨hparent, hname⟩ := inPackage_inj hp.within hp'.within
    (fun n hn => hp.legible n ((List.dropLast_prefix _).subset hn))
    (fun n hn => hp'.legible n ((List.dropLast_prefix _).subset hn)) hp.name.2 hp'.name.2 h h'
  rw [← Path.entry_parent hp.name.1, hparent, hname, Path.entry_parent hp'.name.1]

/-- The label of a file is none of a library. -/
theorem ofFile_ne_qualify {tag : String} (htag : Text.startsWith tag "@" = true)
    (h : ofFile base p = .ok label) (name : String) : label ≠ qualify tag name := by
  obtain ⟨way, -, rfl⟩ := exists_way_of_inPackage h
  intro heq
  obtain ⟨rest, hrest⟩ : "@".toList <+: tag.toList := List.isPrefixOf_iff_prefix.1 htag
  have hlist := congrArg String.toList heq
  simp [qualify, ← hrest] at hlist

end Label

/-! ## Files below the folders of sources -/

/-- The names on the ways to the files of the tree can stand in labels. -/
def Tree.HasLabels (t : Tree) : Prop :=
  ∀ place ∈ t.files.keys, ∀ n ∈ place, Path.IsSegment n ∧ ':' ∉ n.toList

/-- A file below a folder of sources has a label if the folder has one. -/
theorem Source.isLabelled_of_mem_files {platform : Platform} {folder : Path} (ht : t.HasLabels)
    (hfolder : folder.IsLegible) (hwithin : folder.isWithin base = true)
    (hp : p ∈ files t folder platform) : p.IsLabelled base := by
  obtain ⟨place, way, n, -, rfl, hfile, -⟩ := exists_place_of_mem_files hp
  have hway : ∀ m ∈ way ++ [n], Path.IsSegment m ∧ ':' ∉ m.toList := fun m hm =>
    ht _ (Tree.isFile_iff.1 hfile) m (List.mem_append_right _ hm)
  refine ⟨?_, ?_, by simp, ?_⟩
  · intro m hm
    rw [Path.names_entry, Path.join_ofNames, List.append_assoc] at hm
    rcases List.mem_append.1 hm with hm | hm
    · exact hfolder m hm
    · exact (hway m hm).1
  · rw [Path.parent_entry]
    exact Path.isWithin_trans (Path.isWithin_iff_join.2 ⟨way, rfl⟩) hwithin
  · rw [Path.name_entry]
    exact (hway n (by simp)).2

/-- What an index has labels for lies within the folder that they are taken from. -/
theorem Index.isWithin_of_sourceLabelsOf {labels : Entries String String}
    (h : (sourceLabelsOf t base b).Yields labels) :
    ∀ e ∈ b.sourceEntries, e.path.isWithin base = true := by
  obtain ⟨each, heach, -⟩ := h.bind
  intro e he
  obtain ⟨pairs, -, hlabels⟩ := exists_right_of_forall₂ heach.mapM he
  obtain ⟨rel, hrel, -⟩ := hlabels.bind
  by_contra hnot
  rw [Label.relative, Path.relativeTo?, if_neg hnot] at hrel
  exact hrel.throw

/-! ## The dependencies of a file -/

/-- Whatever index is built, no file below the folders of sources depends on itself, in the dialect
that build files are made for. It does not matter how often its namespace is declared, in files or
in libraries, what it requires, or whether folders of sources lie in one another. -/
theorem ofFile_not_mem_dependencies {named : List String} {i : Index} {before mid : Session}
    {settings checked : Settings} {platform : Platform}
    (hindex : (Run.index base named b).Yields before i mid)
    (hchecked : settings.checked = .ok checked) (ht : before.tree.HasLabels)
    (hlegible : ∀ e ∈ b.sourceEntries, e.path.IsLegible)
    (hfile : ∃ e ∈ b.sourceEntries, ∃ dialect, p ∈ Source.files before.tree e.path dialect)
    (hread : Source.declarationOf? before.tree p platform = .ok (some d))
    (hplatform : Platform.clj.reads p.name = true → platform = .clj) :
    ∃ label labels, Label.ofFile base p = .ok label ∧
      (i.labelTables settings.repositoryTag).dependencies d = .ok labels ∧ label ∉ labels := by
  have htag := Settings.startsWith_of_checked hchecked
  have hsources := Index.sourceLabels_of_index hindex
  have hwithin := Index.isWithin_of_sourceLabelsOf hsources
  have hlabelled : ∀ q, (∃ e ∈ b.sourceEntries, ∃ dialect,
      q ∈ Source.files before.tree e.path dialect) → q.IsLabelled base := by
    rintro q ⟨e, he, dialect, hq⟩
    exact Source.isLabelled_of_mem_files ht (hlegible e he) (hwithin e he) hq
  have hof : LabelTables.Of i settings.repositoryTag (i.labelTables settings.repositoryTag) :=
    LabelTables.of_labelTables
  obtain ⟨labels, hlabels, hfrom⟩ := hof.exists_dependencies_apart d
  have hlabel := Label.inPackage_eq_ok (hlabelled p hfile).within p.name
  refine ⟨_, labels, hlabel, hlabels, fun hmem => ?_⟩
  rcases hfrom _ hmem with ⟨ns, -, hother, hget⟩ | ⟨name, hname, -⟩
  · -- the file that has the label of the other namespace would be this one
    obtain ⟨q, d', hq, hns, hqlabel⟩ := Index.exists_declares hsources hget
    obtain ⟨e, he, hqfile⟩ := hq.file
    obtain rfl :=
      Label.ofFile_inj (hlabelled q ⟨e, he, _, hqfile⟩) (hlabelled p hfile) hqlabel hlabel
    obtain rfl := hplatform (Source.reads_of_mem_files hqfile)
    obtain rfl := Option.some.inj (Except.ok.inj (hq.declaration.symm.trans hread))
    exact hother hns.symm
  · exact Label.ofFile_ne_qualify htag hlabel name hname

/-! ## A small project -/

/-- A project in which two files declare a namespace that one of them requires itself. -/
def selfishProject : Session where
  tree.files := [(["w", "lib", "a.clj"], "(ns a (:require a))".toUTF8),
    (["w", "test", "a.clj"], "(ns a)".toUTF8)]

/-- The folders of the project, one of them twice. -/
def selfishSources : Basis where
  classpath := [{ path := .parse "/w/lib" }, { path := .parse "/w/test" },
    { path := .parse "/w/lib" }]

theorem exists_selfish : ∃ d,
    Source.declarationOf? selfishProject.tree (.parse "/w/lib/a.clj") .clj = .ok (some d) ∧
      d.requires = [d.name] := by
  have hread : (Source.declarationOf? selfishProject.tree (.parse "/w/lib/a.clj")
      .clj).toOption.join.any (fun d => d.requires == [d.name]) = true := by
    decide +kernel
  obtain ⟨d, hd, hrequires⟩ := (Option.any_eq_true _ _).1 hread
  exact ⟨d, Except.toOption_join_eq_some.1 hd, eq_of_beq hrequires⟩

/-- The file that requires itself does not depend on itself, although the namespace has its
label. -/
theorem ofFile_not_mem_dependencies_selfish : ∃ i mid d labels,
    (Run.index (.parse "/w") [] selfishSources).Yields selfishProject i mid ∧
      Source.declarationOf? selfishProject.tree (.parse "/w/lib/a.clj") .clj =
        .ok (some d) ∧
      d.requires = [d.name] ∧ i.sourceLabels.get? "a" = some "//lib:a.clj" ∧
      (i.labelTables "@deps").dependencies d = .ok labels ∧ "//lib:a.clj" ∉ labels := by
  obtain ⟨i, mid, hindex, hlabel⟩ := Run.exists_yields
    (Run.index (.parse "/w") [] selfishSources) selfishProject
    (fun i => i.sourceLabels.get? "a" == some "//lib:a.clj") (by decide +kernel)
  obtain ⟨d, hd, hrequires⟩ := exists_selfish
  have hlabels : selfishProject.tree.HasLabels := by
    rw [Tree.HasLabels]
    decide +kernel
  have hlegible : ∀ e ∈ selfishSources.sourceEntries, e.path.IsLegible := by
    intro e he
    simp only [Basis.sourceEntries, selfishSources, List.mem_filter, List.mem_cons,
      List.not_mem_nil, or_false] at he
    rcases he.1 with rfl | rfl | rfl <;> exact Path.isLegible_parse _
  have hfile : ∃ e ∈ selfishSources.sourceEntries, ∃ dialect,
      Path.parse "/w/lib/a.clj" ∈ Source.files selfishProject.tree e.path dialect :=
    ⟨_, List.mem_cons_self, .clj, by decide +kernel⟩
  have hchecked : Settings.checked {} = .ok {} := if_pos (by decide)
  obtain ⟨label, labels, hown, hdependencies, hnot⟩ := ofFile_not_mem_dependencies
    hindex hchecked hlabels hlegible hfile hd fun _ => rfl
  have hname : Label.ofFile (.parse "/w") (.parse "/w/lib/a.clj") = .ok "//lib:a.clj" := by
    with_unfolding_all rfl
  obtain rfl := Except.ok.inj (hown.symm.trans hname)
  exact ⟨i, mid, d, labels, hindex, hd, hrequires, eq_of_beq hlabel, hdependencies, hnot⟩

end BuildFiles
