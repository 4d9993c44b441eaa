import BuildFiles.Configuration
import BuildFiles.Index
import BuildFiles.Proofs.Sources.Frame
import BuildFiles.Resolution.BasisFile

/-!
# What a run reads besides sources

Of the manifest, its configuration, a file that holds a basis and the archives of libraries none is
a build file, unless the manifest or the basis is asked for in one. So each reads the same in a tree
with the same sources: `Manifest.ofFile_eq_ok`, `Configuration.ofFile_eq_ok`,
`BasisFile.returns_resolve`, `Archive.Contents.ofFile_eq`. The same goes for what the index says of
the sources (`Index.build_eq`).
-/

namespace BuildFiles

variable {t t' : Tree} {p : Path}

/-! ## The manifest and its configuration -/

theorem Manifest.path_of_ofText {text : String} {m : Manifest} (h : ofText p text = .ok m) :
    m.path = p := by
  have hentries : ∀ es, ofEntries p es = .ok m → m.path = p := by
    intro es hes
    obtain ⟨paths, -, hes⟩ := Except.bind_eq_ok hes
    obtain ⟨deps, -, hes⟩ := Except.bind_eq_ok hes
    obtain ⟨aliases, -, hes⟩ := Except.bind_eq_ok hes
    obtain ⟨repositories, -, hes⟩ := Except.bind_eq_ok hes
    obtain ⟨overrides, -, hes⟩ := Except.bind_eq_ok hes
    rw [← Except.ok.inj hes]
  rw [ofText] at h
  split at h
  · cases h
  · cases h
  · exact hentries _ h
  · exact hentries _ h
  · cases h

/-- A manifest that was read is read again, if it is no build file. -/
theorem Manifest.ofFile_eq_ok (h : t.SameSources t') {written : Path} {m : Manifest}
    (hm : ofFile t written = .ok m) (hspares : t.Spares m.path) : ofFile t' written = .ok m := by
  rw [ofFile] at hm ⊢
  obtain ⟨settled, hsettled, hm⟩ := Except.bind_eq_ok hm
  obtain ⟨isFolder, hfolder, hm⟩ := Except.bind_eq_ok hm
  obtain ⟨there, hthere, hm⟩ := Except.bind_eq_ok hm
  rw [Except.bind_of_ok hsettled, ← h.hasFolder_eq, Except.bind_of_ok hfolder]
  cases there with
  | false => cases hm
  | true =>
    obtain ⟨text, htext, hm⟩ := Except.bind_eq_ok hm
    rw [Manifest.path_of_ofText hm] at hspares
    dsimp only
    rw [← h.has_eq hspares, Except.bind_of_ok hthere, if_pos rfl,
      Except.bind_of_ok (h.readText_eq_ok hspares htext)]
    exact hm

/-- The settings file has a name of its own, also after its path has been resolved, so in no tree is
it a build file. -/
theorem Configuration.spares_of_file {found : Path} (h : file t p = .ok found) (t' : Tree) :
    t'.Spares found := by
  have hentry : ∀ q : Path, q.name = configFileName → q.resolved (.ofNames []) = .ok found →
      t'.Spares found := by
    intro q hq hfound
    have hne : q.names ≠ [] := by
      intro hnil
      rw [Path.name, hnil] at hq
      exact absurd hq (by decide)
    rw [Path.resolved] at hfound
    split_ifs at hfound
    obtain rfl := Except.ok.inj hfound
    have hnames : (q.settled (.ofNames [])).names =
        Path.settle [] q.parent.names ++ [configFileName] := by
      rw [← Path.settle_append _ _ (by decide), ← hq, ← Path.names_entry, Path.entry_parent hne,
        Path.settled, Path.join_ofNames, List.append_nil]
    have hname : (q.settled (.ofNames [])).name = configFileName := by
      rw [Path.name, hnames, List.getLast?_append]
      rfl
    refine Tree.spares_of_name ?_ t'
    rw [hname]
    decide
  rw [file] at h
  obtain ⟨isFolder, -, h⟩ := Except.bind_eq_ok h
  split_ifs at h with hfolder hname
  · exact hentry _ (Path.name_entry p _) h
  · exact hentry _ hname h
  · exact hentry _ (Path.name_entry p.parent _) h

theorem Configuration.ofFile_eq_ok (h : t.SameSources t') {c : Configuration}
    (hc : ofFile t p = .ok c) : ofFile t' p = .ok c := by
  have hfile : file t p = file t' p := by rw [file, file, h.hasFolder_eq]
  rw [ofFile] at hc ⊢
  obtain ⟨found, hfound, hc⟩ := Except.bind_eq_ok hc
  have hspares := spares_of_file hfound t
  obtain ⟨there, hthere, hc⟩ := Except.bind_eq_ok hc
  rw [← hfile, Except.bind_of_ok hfound, ← h.has_eq hspares, Except.bind_of_ok hthere]
  cases there with
  | false => exact hc
  | true =>
    obtain ⟨text, htext, hc⟩ := Except.bind_eq_ok hc
    rw [if_pos rfl, Except.bind_of_ok (h.readText_eq_ok hspares htext)]
    exact hc

/-! ## A file that holds a basis -/

/-- A basis that was read from a file is read again, if the file is no build file. -/
theorem BasisFile.returns_resolve (h : t.SameSources t') (hspares : t.Spares p) {m : Manifest}
    {aliases : List String} {b : Basis} (hb : (resolve t p m aliases).Yields b) :
    (resolve t' p m aliases).Returns b := by
  have hsteady : (resolve t p m aliases).IsSteady :=
    (Logged.IsSteady.of _).bind fun _ => (Logged.IsSteady.of _).bind fun _ =>
      (Logged.IsSteady.of _).bind fun _ => (Logged.IsSteady.of _).bind fun _ =>
        (Logged.IsSteady.say _).bind fun _ => (Logged.IsSteady.of _).bind fun _ =>
          (Logged.IsSteady.of _).bind fun _ => .pure _
  have hdocument : document t' p = document t p := by
    obtain ⟨es, hes, -⟩ := hb.bind
    have hes := hes.of
    have htext := h.readText hspares
    rw [document] at hes ⊢
    rw [document]
    generalize t.readText p = x at hes htext
    generalize t'.readText p = x' at htext
    cases htext with
    | same x => rfl
    | lost hlost hlost' => rcases hlost with rfl | rfl <;> cases hes
  rw [resolve, hdocument]
  exact hb.returns hsteady

/-! ## Archives -/

namespace Archive.Contents

theorem steady_declaration? (o : Opened) (e : Entry) : (o.declaration? e).IsSteady := by
  refine (Logged.IsSteady.of _).bind fun text => ?_
  cases text with
  | none => exact (Logged.IsSteady.say _).bind fun _ => .pure _
  | some text =>
    simp only
    split
    · exact .pure _
    · split
      · exact (Logged.IsSteady.say _).bind fun _ => .pure _
      · exact .throw _

theorem steady_visit (o : Opened) (e : Entry) : (o.visit e).IsSteady := by
  rw [Opened.visit]
  split
  · exact .throw _
  · split
    · exact steady_declaration? o e
    · exact .pure _

/-- What an archive declares does not depend on what was said. -/
theorem steady_ofFile (t : Tree) (p : Path) : (ofFile t p).IsSteady :=
  (Logged.IsSteady.of _).bind fun o => (Logged.IsSteady.mapM (steady_visit o) _).bind fun _ =>
    (Logged.IsSteady.say _).bind fun _ => .pure _

theorem spares_of_suffix (hp : p.suffix = ".jar") (t : Tree) : t.Spares p := by
  have hother : ∀ n ∈ ["", "..", BuildFile.fileName],
      String.ofList (Path.suffixOf n.toList) ≠ ".jar" := by decide
  refine Tree.spares_of_name ?_ t
  rintro n hn rfl
  exact hother _ hn hp

theorem opened_eq (h : t.SameSources t') (p : Path) : opened t p = opened t' p := by
  rw [opened, opened]
  split
  · rfl
  · next hp =>
    have hread := h.read (spares_of_suffix (not_not.1 hp) t)
    generalize t.read p = x at hread
    generalize t'.read p = x' at hread
    cases hread with
    | same x => rfl
    | lost hlost hlost' => rcases hlost with rfl | rfl <;> rcases hlost' with rfl | rfl <;> rfl

/-- What an archive declares does not depend on which build files there are. -/
theorem ofFile_eq (h : t.SameSources t') (p : Path) : ofFile t p = ofFile t' p := by
  rw [ofFile, ofFile, opened_eq h]

end Archive.Contents

/-! ## The index -/

theorem Source.steady_indexed? (t : Tree) (platform : Platform) (p : Path) :
    (indexed? t platform p).IsSteady := by
  rw [indexed?]
  split
  · exact .pure _
  · split
    · exact (Logged.IsSteady.say _).bind fun _ => .pure _
    · exact .throw _

namespace Index

theorem steady_labelsIn (t : Tree) (base : Path) (entry : ClasspathEntry) :
    (labelsIn t base entry).IsSteady :=
  (Logged.IsSteady.of _).bind fun _ =>
    ((Logged.IsSteady.of _).bind fun _ =>
      (Logged.IsSteady.mapM (Source.steady_indexed? t .clj) _).bind fun _ => .pure _).bind fun _ =>
        Logged.IsSteady.mapM (fun _ => (Logged.IsSteady.of _).bind fun _ => .pure _) _

theorem steady_build (t : Tree) (base : Path) (named : List String) (b : Basis)
    (scanned : List ScannedLibrary) : (build t base named b scanned).IsSteady :=
  ((Logged.IsSteady.mapM (steady_labelsIn t base) _).bind fun _ => .pure _).bind fun _ =>
    (Logged.Returns.sayAll _).isSteady.bind fun _ => .pure _

/-- An index does not depend on which build files there are. -/
theorem build_eq (h : t.SameSources t') (base : Path) (named : List String) (b : Basis)
    (scanned : List ScannedLibrary) :
    build t base named b scanned = build t' base named b scanned := by
  have hlabels : labelsIn t base = labelsIn t' base := by
    funext entry
    rw [labelsIn, labelsIn, Source.declarationsIn_eq h]
  rw [build, build, sourceLabelsOf, sourceLabelsOf, hlabels]

end Index

end BuildFiles
