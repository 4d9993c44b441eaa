import BuildFiles.Proofs.Library.Labels
import BuildFiles.Proofs.Overriding
import BuildFiles.Proofs.Sources.Generation

/-!
# What the target of a source file depends on

The labels of a target are given in several layers: the library that every target needs, what the
declaration in the file requires, the overrides of the manifest for all targets and for this one,
and what the declaration sets itself. Where all layers give lists of texts, layers come to the lists
one after the other (`Attributes.get?_lay_texts`), and once they are in order the target depends on
exactly the texts of all layers (`Sources.Context.deps_of_layers`).
-/

namespace BuildFiles

namespace Attributes

variable {k : String} {layer below : Attributes} {value : Datum} {ss : List String}

/-! ## Lists of texts in layers -/

/-- What the layer gives to the attribute, if anything, is a list of texts. -/
def GivesTexts (k : String) (layer : Attributes) : Prop :=
  ∀ e ∈ layer, e.1 = k → ∃ ss : List String, e.2.sequence? = some (ss.map .str)

/-- The texts that the layer gives to the attribute. -/
def textsAt (k : String) (layer : Attributes) : List String :=
  layer.flatMap fun e => if e.1 = k then e.2.items.filterMap Datum.text? else []

theorem filterMap_text? (ss : List String) : (ss.map Datum.str).filterMap Datum.text? = ss := by
  rw [List.filterMap_map]
  exact List.filterMap_some

theorem textsAt_texts (k : String) (ss : List String) : textsAt k [(k, .texts ss)] = ss := by
  rw [textsAt, List.flatMap_singleton, if_pos rfl]
  exact filterMap_text? ss

theorem givesTexts_of_not_mem (h : k ∉ layer.keys) : GivesTexts k layer := by
  rintro e he rfl
  exact absurd (List.mem_map_of_mem he) h

theorem textsAt_of_not_mem (h : k ∉ layer.keys) : textsAt k layer = [] := by
  refine List.flatMap_eq_nil_iff.2 fun e he => if_neg ?_
  rintro rfl
  exact h (List.mem_map_of_mem he)

/-- A layer puts its texts after those that lie below, also if it has none or if there are none
below. -/
theorem get?_lay_texts (hbelow : below.get? k = some (.texts ss)) (h : GivesTexts k layer) :
    (lay below layer).get? k = some (.texts (ss ++ textsAt k layer)) := by
  induction layer generalizing below ss with
  | nil =>
    rw [show textsAt k [] = [] from rfl, List.append_nil]
    exact hbelow
  | cons e layer ih =>
    obtain ⟨he, h⟩ := List.forall_mem_cons.1 h
    have hlay : lay below (e :: layer) = lay (put below e.1 e.2) layer := rfl
    have htexts : textsAt k (e :: layer) =
        (if e.1 = k then e.2.items.filterMap Datum.text? else []) ++ textsAt k layer :=
      List.flatMap_cons
    rw [hlay, htexts]
    by_cases hk : e.1 = k
    · obtain ⟨ss', hss'⟩ := he hk
      have hitems : e.2.items = ss'.map .str := by rw [Datum.items, hss']; rfl
      have hput : (put below e.1 e.2).get? k = some (.texts (ss ++ ss')) := by
        rw [put, Entries.get?_insert, hk, if_pos (by simp), hbelow, Datum.texts,
          stacked_of_vector hss', Datum.texts, List.map_append]
      rw [ih hput h, if_pos hk, hitems, filterMap_text?, List.append_assoc]
    · rw [ih ((get?_put_of_ne hk).trans hbelow) h, if_neg hk, List.nil_append]

theorem get?_foldl_lay_texts {layers : List Attributes}
    (hbelow : below.get? k = some (.texts ss)) (h : ∀ layer ∈ layers, GivesTexts k layer) :
    (layers.foldl lay below).get? k = some (.texts (ss ++ layers.flatMap (textsAt k))) := by
  induction layers generalizing below ss with
  | nil => simpa using hbelow
  | cons layer layers ih =>
    obtain ⟨hlayer, h⟩ := List.forall_mem_cons.1 h
    rw [List.foldl_cons, ih (get?_lay_texts hbelow hlayer) h, List.flatMap_cons, List.append_assoc]

end Attributes

namespace Sources.Context

open Attributes

variable {c c' : Context} {p p' : Path} {d d' : Declaration} {label label' : String}
  {needed needed' : List String} {inline inline' test : Attributes}

/-! ## The target of a file -/

/-- What the target of a file is made from: its label, what the declaration in it requires, and the
layers that the manifest and the declaration give, none of which gives anything but a list of texts
as what the target depends on. -/
structure ListsDeps (c : Context) (p : Path) (d : Declaration) (label : String)
    (needed : List String) (inline : Attributes) : Prop where
  label_eq : Label.ofFile c.base p = .ok label
  needed_eq : (c.index.labelTables c.settings.repositoryTag).dependencies d = .ok needed
  inline_eq : Inline.library d = .ok inline
  all : GivesTexts "deps" c.overrides.clojureLibrary
  one : GivesTexts "deps" (c.overridesAt label)
  own : GivesTexts "deps" inline

/-- The text is one of the labels in the layers of the target. -/
def IsListed (c : Context) (label : String) (needed : List String) (inline : Attributes)
    (s : String) : Prop :=
  s = c.settings.baseLabel ∨ s ∈ needed ∨ s ∈ textsAt "deps" c.overrides.clojureLibrary ∨
    s ∈ textsAt "deps" (c.overridesAt label) ∨ s ∈ textsAt "deps" inline

theorem not_mem_keys_fileAttributes (isCompiled : Bool) (fileName : String) (d : Declaration) :
    "deps" ∉ (fileAttributes isCompiled fileName d).keys := by
  cases isCompiled <;> simp [fileAttributes, Entries.keys]

theorem not_mem_keys_stripAttributes (strip : Option String) :
    "deps" ∉ (stripAttributes strip).keys := by
  rcases stripAttributes_eq strip with hstrip | ⟨s, hstrip⟩ <;> simp [hstrip, Entries.keys]

/-- The layers come to the texts that they give. -/
theorem get?_libraryAttributes (h : c.ListsDeps p d label needed inline) (strip : Option String) :
    (c.libraryAttributes p d label strip needed inline).get? "deps" =
      some (.texts (c.settings.baseLabel :: (needed ++ (textsAt "deps" c.overrides.clojureLibrary ++
        (textsAt "deps" (c.overridesAt label) ++ textsAt "deps" inline))))) := by
  have hfirst : (lay [] [("name", .str p.name), ("deps", .texts [c.settings.baseLabel])]).get?
      "deps" = some (.texts [c.settings.baseLabel]) := rfl
  have hneeded : GivesTexts "deps" [("deps", .texts needed)] :=
    List.forall_mem_singleton.2 fun _ => ⟨needed, rfl⟩
  have hfile := not_mem_keys_fileAttributes (c.index.compiles d.name && !isTestFile p.name) p.name d
  have hstrip := not_mem_keys_stripAttributes strip
  rw [libraryAttributes, merge, List.foldl_cons, get?_foldl_lay_texts hfirst]
  · simp only [List.flatMap_cons, List.flatMap_nil, textsAt_of_not_mem hfile,
      textsAt_of_not_mem hstrip, textsAt_texts, List.nil_append, List.append_nil, List.cons_append]
  · simp only [List.forall_mem_cons]
    exact ⟨givesTexts_of_not_mem hfile, givesTexts_of_not_mem hstrip, hneeded, h.all, h.one, h.own,
      List.forall_mem_nil _⟩

/-- The first of the targets is a library, which depends on just these texts, in order and each
once, and the others are tests. -/
def DependsOn (targets : List Target) (listed : String → Prop) : Prop :=
  ∃ library tests ss, targets = library :: tests ∧ library.kind = .sourceLibrary ∧
    (∀ t ∈ tests, t.kind = .test) ∧ library.attributes.get? "deps" = some (.texts ss) ∧
    ss.Pairwise (· < ·) ∧ ∀ s, s ∈ ss ↔ listed s

/-- What a library depends on is told by which texts it depends on, since they are in order and each
is there once. -/
theorem DependsOn.deps_eq {targets targets' : List Target} {listed listed' : String → Prop}
    (h : DependsOn targets listed) (h' : DependsOn targets' listed')
    (hlisted : ∀ s, listed s ↔ listed' s) {library library' : Target} (hmem : library ∈ targets)
    (hkind : library.kind = .sourceLibrary) (hmem' : library' ∈ targets')
    (hkind' : library'.kind = .sourceLibrary) :
    library.attributes.get? "deps" = library'.attributes.get? "deps" := by
  -- the library is the first target, since the others are tests
  have hfirst : ∀ {first : Target} {tests : List Target}, (∀ t ∈ tests, t.kind = .test) →
      ∀ t ∈ first :: tests, t.kind = .sourceLibrary → t = first := by
    intro first tests htests t ht hkind
    rcases List.mem_cons.1 ht with rfl | ht
    · rfl
    · cases hkind.symm.trans (htests t ht)
  obtain ⟨first, tests, ss, rfl, -, htests, hdeps, horder, hss⟩ := h
  obtain ⟨first', tests', ss', rfl, -, htests', hdeps', horder', hss'⟩ := h'
  obtain rfl := hfirst htests library hmem hkind
  obtain rfl := hfirst htests' library' hmem' hkind'
  have hsame : ss = ss' := List.Pairwise.eq_of_mem_iff horder horder' fun s => by
    rw [hss, hss', hlisted]
  rw [hdeps, hdeps', hsame]

/-- Where all layers list texts, the library of a file depends on those of its layers, and on the
labels that its declaration needs. -/
theorem dependsOn_of_targetsFor (h : c.ListsDeps p d label needed inline) {targets : List Target}
    (htargets : (c.targetsFor p d).Yields targets) :
    DependsOn targets (c.IsListed label needed inline) := by
  obtain ⟨label', strip, needed', inline', library, hlabel, hinline, hneeded, hlibrary,
    htargets⟩ := exists_of_targetsFor htargets
  obtain rfl := Except.ok.inj (h.label_eq.symm.trans hlabel)
  obtain rfl := Except.ok.inj (h.inline_eq.symm.trans hinline)
  obtain rfl := Except.ok.inj (h.needed_eq.symm.trans hneeded)
  obtain ⟨hkind, hnormalize⟩ := Library.Context.finished_eq_ok hlibrary
  obtain ⟨value, hvalue, hget⟩ := get?_normalizeAll_of_mem (by decide) hnormalize (by decide)
    (get?_libraryAttributes h strip)
  rw [normalizedLabels_texts] at hvalue
  obtain rfl := Except.ok.inj hvalue
  have hlisted : ∀ s, s ∈ Text.sortedOnce (c.settings.baseLabel :: (needed ++
      (textsAt "deps" c.overrides.clojureLibrary ++ (textsAt "deps" (c.overridesAt label) ++
        textsAt "deps" inline)))) ↔ c.IsListed label needed inline s := by
    intro s
    simp only [Text.mem_sortedOnce, IsListed, List.mem_cons, List.mem_append]
  have horder := Text.pairwise_lt_sortedOnce
  rcases htargets with rfl | ⟨test, attributes, rfl, htest⟩
  · exact ⟨library, [], _, rfl, hkind, List.forall_mem_nil _, hget, horder _, hlisted⟩
  · exact ⟨library, [test], _, rfl, hkind,
      List.forall_mem_singleton.2 (Library.Context.finished_eq_ok htest).1, hget, horder _, hlisted⟩

/-- Where all layers give lists of texts, the targets of a file are made, unless something else that
was set is at fault, and its library depends on just the texts in its layers, in order and each
once. So it does not matter how often and in which order a layer lists them. -/
theorem deps_of_layers (h : c.ListsDeps p d label needed inline) :
    (∀ test, c.IsReady p d inline test → (c.targetsFor p d).Ends
        (Fault.IsOfSettings c.settings.validate
          (c.overrides.SetsOnly (Attributes.IsFit c.settings.validate) ∧
            Attributes.IsFit c.settings.validate inline ∧
            Attributes.IsFit c.settings.validate test)
          (c.overrides.SetsOnly Attributes.IsShort ∧ inline.IsShort ∧ test.IsShort))
        (DependsOn · (c.IsListed label needed inline))) ∧
      ∀ targets, (c.targetsFor p d).Yields targets →
        DependsOn targets (c.IsListed label needed inline) ∧
        ∀ {c' p' d' label' needed' inline'}, ListsDeps c' p' d' label' needed' inline' →
          (∀ s, c.IsListed label needed inline s ↔ c'.IsListed label' needed' inline' s) →
          ∀ targets', (c'.targetsFor p' d').Yields targets' → ∀ t ∈ targets, ∀ t' ∈ targets',
            t.kind = .sourceLibrary → t'.kind = .sourceLibrary →
            t.attributes.get? "deps" = t'.attributes.get? "deps" := by
  refine ⟨fun test hready => ?_, fun targets htargets => ?_⟩
  · refine (ends_targetsFor hready (Overrides.setsOnly_heeds And.left And.left) ?_ ?_).of_yields
      fun _ => dependsOn_of_targetsFor h
    · exact ⟨fun hf => hf.2.1, fun hs => hs.2.1⟩
    · exact ⟨fun hf => hf.2.2, fun hs => hs.2.2⟩
  · have hdepends := dependsOn_of_targetsFor h htargets
    refine ⟨hdepends, ?_⟩
    intro c' p' d' label' needed' inline' h' hlisted targets' htargets' t ht t' ht' hkind hkind'
    exact hdepends.deps_eq (dependsOn_of_targetsFor h' htargets') hlisted ht hkind ht' hkind'

/-- Sources with labels for all files and for one, which are not checked. -/
def listing (all one : List String) : Context where
  index := {}
  overrides := {
    clojureLibrary := [("deps", .texts all)]
    deps := [("//src:a.clj", [("deps", .texts one)])] }
  settings := {}
  base := ⟨.root, ["p"]⟩
  sourcePaths := [.str "src"]

/-- A declaration that sets labels itself. -/
def settingDeps (own : List String) : Declaration :=
  { plainDeclaration with
    metadata := [(.keyword ⟨some "bazel", "clojure_library"⟩,
      .map [(.keyword ⟨none, "deps"⟩, .texts own)])] }

/-- In the example every layer lists labels: the file itself, the block for all files, the one for
this file, and the metadata. -/
theorem listsDeps_listing (all one own : List String) : (listing all one).ListsDeps plainFile
    (settingDeps own) "//src:a.clj" [] [("deps", .texts own)] where
  label_eq := by with_unfolding_all rfl
  needed_eq := by with_unfolding_all rfl
  inline_eq := by
    have hnames : (own.map Datum.str).mapM Inline.nameOf = .ok own :=
      Except.mapM_of_forall₂ (List.forall₂_map_left_iff.2 (List.forall₂_same.2 fun _ _ => rfl))
    have hget : (settingDeps own).metadata.get? (.keyword ⟨some "bazel", "clojure_library"⟩) =
        some (.map [(.keyword ⟨none, "deps"⟩, .texts own)]) := by
      with_unfolding_all rfl
    have hvalue : Inline.attributeValue labelAttributes [] "deps" (.texts own) =
        .ok (.texts own) := by
      change ((own.map Datum.str).mapM Inline.nameOf >>= fun ss => .ok (Datum.texts ss)) = _
      rw [hnames]
      rfl
    have hkey : Inline.nameOf (.keyword ⟨none, "deps"⟩) = .ok "deps" := rfl
    rw [Inline.library, hget, Inline.attributes]
    simp only [Option.bind_some, Datum.entries?, List.foldlM_cons, List.foldlM_nil]
    rw [hkey]
    change (Inline.attributeValue labelAttributes [] "deps" (.texts own) >>= _) >>= _ = _
    rw [hvalue]
    rfl
  all := List.forall_mem_singleton.2 fun _ => ⟨all, rfl⟩
  one := List.forall_mem_singleton.2 fun _ => ⟨one, rfl⟩
  own := List.forall_mem_singleton.2 fun _ => ⟨own, rfl⟩

theorem isListed_listing {all one own : List String} {s : String} :
    (listing all one).IsListed "//src:a.clj" [] [("deps", .texts own)] s ↔
      s ∈ "@deps//:org_clojure_clojure" :: all ++ one ++ own := by
  have hbase : ({} : Settings).baseLabel = "@deps//:org_clojure_clojure" := by decide +kernel
  have hone : (listing all one).overridesAt "//src:a.clj" = [("deps", .texts one)] := rfl
  have hall : (listing all one).overrides.clojureLibrary = [("deps", .texts all)] := rfl
  have hsettings : (listing all one).settings = {} := rfl
  simp [IsListed, hsettings, hbase, hone, hall, textsAt_texts]

theorem isReady_listing (all one own : List String) :
    (listing all one).IsReady plainFile (settingDeps own) [("deps", .texts own)] [] where
  label := ⟨_, (listsDeps_listing all one own).label_eq⟩
  strip := ⟨_, by with_unfolding_all rfl⟩
  needed := ⟨_, (listsDeps_listing all one own).needed_eq⟩
  library := (listsDeps_listing all one own).inline_eq
  test _ := by with_unfolding_all rfl

theorem setsOnly_listing {asked : Attributes → Prop} (all one : List String) (hnone : asked [])
    (hone : ∀ ss, asked [("deps", .texts ss)]) : (listing all one).overrides.SetsOnly asked where
  clojureLibrary := hone all
  clojureTest := hnone
  deps label a h := by
    obtain ⟨rfl, rfl⟩ : label = "//src:a.clj" ∧ a = [("deps", .texts one)] := by
      simpa [listing] using (Entries.get?_eq_some_iff_mem (by simp [listing, Entries.keys])).1 h
    exact hone one

/-- The library of the file has all labels, in whatever order the layers list them, and however
often. -/
theorem deps_of_layers_listing :
    let c := listing [":b", ":a"] ["//x:c"]
    let c' := listing [":a", "//x:c", ":b", ":a"] ["//x:c", "//x:c"]
    let d := settingDeps [":b", ":b"]
    c.ListsDeps plainFile d "//src:a.clj" [] [("deps", .texts [":b", ":b"])] ∧
      ∃ targets targets', (c.targetsFor plainFile d).Returns targets ∧
        DependsOn targets (· ∈ ["@deps//:org_clojure_clojure", ":b", ":a", "//x:c", ":b", ":b"]) ∧
        (c'.targetsFor plainFile d).Returns targets' ∧ ∀ t ∈ targets, ∀ t' ∈ targets',
          t.kind = .sourceLibrary → t'.kind = .sourceLibrary →
          t.attributes.get? "deps" = t'.attributes.get? "deps" := by
  have hmade : ∀ all one own : List String, ∃ targets,
      ((listing all one).targetsFor plainFile (settingDeps own)).Returns targets ∧
        DependsOn targets (· ∈ "@deps//:org_clojure_clojure" :: all ++ one ++ own) := by
    intro all one own
    have hfit (ss : List String) : Attributes.IsFit false [("deps", .texts ss)] :=
      List.forall_mem_singleton.2 (isFitAt_texts ss)
    have hshort (ss : List String) : Attributes.IsShort [("deps", .texts ss)] :=
      List.forall_mem_singleton.2 (holdsLongInteger_texts ss)
    rcases (deps_of_layers (listsDeps_listing all one own)).1 [] (isReady_listing all one own) with
      ⟨targets, htargets, hdepends⟩ | ⟨e, -, he⟩
    · exact ⟨targets, htargets, (funext fun s => propext isListed_listing) ▸ hdepends⟩
    · cases (he.isOfLabel ⟨setsOnly_listing all one nofun hfit, hfit own, nofun⟩
        ⟨setsOnly_listing all one nofun hshort, hshort own, nofun⟩).1
  have hlists := listsDeps_listing [":b", ":a"] ["//x:c"] [":b", ":b"]
  obtain ⟨targets, htargets, hdepends⟩ := hmade [":b", ":a"] ["//x:c"] [":b", ":b"]
  obtain ⟨targets', htargets', -⟩ :=
    hmade [":a", "//x:c", ":b", ":a"] ["//x:c", "//x:c"] [":b", ":b"]
  refine ⟨hlists, targets, targets', htargets, hdepends, htargets', ?_⟩
  refine ((deps_of_layers hlists).2 targets htargets.yields).2
    (listsDeps_listing _ _ _) (fun s => ?_) targets' htargets'.yields
  rw [isListed_listing, isListed_listing]
  simp
  tauto

end Sources.Context

end BuildFiles
