import BuildFiles.Library.Targets
import BuildFiles.Manifest.Basic
import BuildFiles.Proofs.Rule.Fitness
import BuildFiles.Proofs.Rule.Merging

/-!
# What overrides can do to generation

Overrides lay values of any kind over the attributes of a target. All that a target needs besides
can be written, so what a target comes to is told by the overrides and by what its file sets: it has
a text, or it is refused for a label that is none, or it stops for a value that the attribute cannot
have or for an integer that is too long to be written (`Sources.ends_finished`). From this, how the
targets of a file and of a library end (`ends_of_overrides`).
-/

namespace BuildFiles

namespace Attributes

variable {validated : Bool} {fit short : Prop} {layer : Attributes}

/-- What a layer sets is all fit if `fit` is so, and it is all short if `short` is so. -/
structure Heeds (validated : Bool) (fit short : Prop) (layer : Attributes) : Prop where
  fit : fit → layer.IsFit validated
  short : short → layer.IsShort

/-- A layer without attributes heeds everything. -/
theorem heeds_nil : Heeds validated fit short [] := ⟨fun _ => nofun, fun _ => nofun⟩

/-- A text can be added to a layer: it is fit, and holds no integer. -/
theorem Heeds.cons_str (key s : String) (h : Heeds validated fit short layer) :
    Heeds validated fit short ((key, .str s) :: layer) :=
  ⟨fun hf => List.forall_mem_cons.2 ⟨isFitAt_str s, h.fit hf⟩,
    fun hs => List.forall_mem_cons.2 ⟨rfl, h.short hs⟩⟩

theorem holdsLongInteger_texts (ss : List String) : (Datum.texts ss).holdsLongInteger = false :=
  Datum.anyHoldsLong_eq_false_iff.2 (List.forall_mem_map.2 fun _ _ => rfl)

/-- Several texts can be added to a layer as well: they are fit, and hold no integer. -/
theorem Heeds.cons_texts (key : String) (ss : List String) (h : Heeds validated fit short layer) :
    Heeds validated fit short ((key, .texts ss) :: layer) :=
  ⟨fun hf => List.forall_mem_cons.2 ⟨isFitAt_texts ss, h.fit hf⟩,
    fun hs => List.forall_mem_cons.2 ⟨holdsLongInteger_texts ss, h.short hs⟩⟩

end Attributes

namespace Sources

variable {settings : Settings} {kind : TargetKind} {a : Attributes} {fit short : Prop}

/-- A target is refused for a label that is none, or it has a text, unless a value is not fit or
holds an integer that is too long. -/
theorem ends_finished (hnodup : a.keys.Nodup) (hname : "name" ∈ a.keys) :
    Except.Ends (Fault.IsOfSettings settings.validate (a.HoldsFit settings.validate) a.HoldsShort)
      (Target.IsSettled settings.validate (a.HoldsFit settings.validate) a.HoldsShort)
      (finished settings kind a) := by
  refine (Attributes.ends_normalize true a).bind fun a' _ ⟨hfollows, hnormal⟩ => ?_
  have hnodup' := hfollows.nodup hnodup
  have hname' := hfollows.keys "name" hname
  have hrender : (settings.validate = true → a'.OnlyLabels) →
      Target.IsSettled settings.validate (a.HoldsFit settings.validate) a.HoldsShort
        ⟨kind, a'⟩ := by
    intro hlabels
    refine (Target.ends_render (t := ⟨kind, a'⟩) hnodup').mono (fun _ he => he.mono (fun h => ?_)
      hfollows.short) fun _ h => h
    exact Target.isWritable_of_isNormal (t := ⟨kind, a'⟩) hnodup' (hfollows.fit h) (hnormal h)
      hlabels
  cases hvalidate : settings.validate with
  | false =>
    rw [hvalidate] at hrender
    exact hrender nofun
  | true =>
    rw [hvalidate] at hrender hnormal
    refine ((Target.ends_validate (t := ⟨kind, a'⟩) hname').mono (fun _ he => he.mono
      (fun h => (hnormal h).hasMembers) hfollows.short) (fun _ h => h)).bind fun _ _ hlabels => ?_
    exact hrender fun _ => hlabels

/-- A target whose attributes are layers over each other, of which the first has the name, is
refused for a label that is none, or it has a text, unless a value of the layers is not fit or holds
a long integer. -/
theorem ends_finished_merge {name : Datum} {layer : Attributes} {layers : List Attributes}
    (h : ∀ l ∈ (("name", name) :: layer) :: layers,
      Attributes.Heeds settings.validate fit short l) :
    Except.Ends (Fault.IsOfSettings settings.validate fit short)
      (Target.IsSettled settings.validate fit short)
      (finished settings kind (Attributes.merge ((("name", name) :: layer) :: layers))) := by
  have hname : "name" ∈ (Attributes.merge ((("name", name) :: layer) :: layers)).keys :=
    Attributes.mem_keys_merge.2 ⟨_, List.mem_cons_self, List.mem_cons_self⟩
  have hfit (hf : fit) := Attributes.holdsFit_merge fun l hl => (h l hl).fit hf
  have hshort (hs : short) := Attributes.holdsShort_merge fun l hl => (h l hl).short hs
  exact (ends_finished (Attributes.nodup_keys_merge _) hname).mono (fun _ he => he.mono hfit hshort)
    fun _ ht => ht.mono (fun _ he => he.mono hfit hshort) fun _ h => h

end Sources

/-! ## Files and archives -/

/-- All attributes that the block sets are as asked. -/
structure Overrides.SetsOnly (asked : Attributes → Prop) (o : Overrides) : Prop where
  clojureLibrary : asked o.clojureLibrary
  clojureTest : asked o.clojureTest
  deps : ∀ label a, o.deps.get? label = some a → asked a

/-- What is asked of all blocks holds of the one for a label, also if there is none. -/
theorem Overrides.SetsOnly.getD {asked : Attributes → Prop} {o : Overrides} (h : o.SetsOnly asked)
    (hnone : asked []) (label : String) : asked ((o.deps.get? label).getD []) := by
  cases hget : o.deps.get? label with
  | none => exact hnone
  | some a => exact h.deps label a hget

/-- A block that sets only what is fit and short gives layers that heed this. -/
theorem Overrides.setsOnly_heeds {validated : Bool} {fit short : Prop} {o : Overrides}
    (hfit : fit → o.SetsOnly (Attributes.IsFit validated))
    (hshort : short → o.SetsOnly Attributes.IsShort) :
    o.SetsOnly (Attributes.Heeds validated fit short) where
  clojureLibrary := ⟨fun hf => (hfit hf).clojureLibrary, fun hs => (hshort hs).clojureLibrary⟩
  clojureTest := ⟨fun hf => (hfit hf).clojureTest, fun hs => (hshort hs).clojureTest⟩
  deps label a h := ⟨fun hf => (hfit hf).deps label a h, fun hs => (hshort hs).deps label a h⟩

/-- The texts of the targets. -/
def Target.rendered (targets : Logged (List Target)) : Logged (List String) := do
  Logged.of ((← targets).mapM Target.render)

/-- Targets that are settled are rendered, or fail as settings do. -/
theorem Target.ends_rendered {validated : Bool} {fit short : Prop} {targets : Logged (List Target)}
    (h : targets.Ends (Fault.IsOfSettings validated fit short)
      fun ts => ∀ t ∈ ts, t.IsSettled validated fit short) :
    (Target.rendered targets).Ends (Fault.IsOfSettings validated fit short) fun _ => True :=
  h.bind fun _ hts => .of ((Except.Ends.mapM hts).mono (fun _ he => he) fun _ _ => trivial)

namespace Sources.Context

open Attributes

variable {c : Sources.Context} {p : Path} {d : Declaration} {inline test : Attributes}
  {validated : Bool} {fit short : Prop}

/-- What a file needs besides overrides is there: its label, its dependencies, the source path that
it is below, and the attributes that its declaration sets. -/
structure IsReady (c : Sources.Context) (p : Path) (d : Declaration) (inline test : Attributes) :
    Prop where
  label : ∃ label, Label.ofFile c.base p = .ok label
  strip : ∃ strip, c.stripPrefix? p = .ok strip
  needed : ∃ needed, (c.index.labelTables c.settings.repositoryTag).dependencies d = .ok needed
  library : Inline.library d = .ok inline
  test : isTestFile p.name = true → Inline.test d = .ok test

/-- Telling of inline metadata always succeeds. -/
theorem returns_sayInline (d : Declaration) (what : String) (attributes : Attributes) :
    (sayInline d what attributes).Returns () := by
  rw [sayInline]
  split
  · exact .pure ()
  · exact .say _

/-- What is given by a file itself heeds everything: it is made of texts. -/
theorem heeds_fileAttributes (isCompiled : Bool) (fileName : String) (d : Declaration) :
    Heeds validated fit short (fileAttributes isCompiled fileName d) := by
  rw [fileAttributes]
  split
  · exact (heeds_nil.cons_texts _ _).cons_texts _ _
  · exact (heeds_nil.cons_texts _ _).cons_texts _ _

/-- A prefix that is to be stripped, if there is one, heeds everything, since it is a text. -/
theorem heeds_stripAttributes (strip : Option String) :
    Heeds validated fit short (stripAttributes strip) := by
  cases strip with
  | none => exact heeds_nil
  | some s =>
    rw [stripAttributes]
    split
    · exact heeds_nil
    · exact heeds_nil.cons_str _ s

/-- The target that runs the tests of a file. -/
theorem ends_testTarget {fileName label : String} (htest : Inline.test d = .ok test)
    (hoverrides : c.overrides.SetsOnly (Heeds c.settings.validate fit short))
    (hset : Heeds c.settings.validate fit short test) :
    (c.testTarget fileName label d).Ends (Fault.IsOfSettings c.settings.validate fit short)
      (Target.IsSettled c.settings.validate fit short) := by
  refine (Logged.Returns.of htest).bind_ends ((returns_sayInline d _ _).bind_ends
    (.of (ends_finished_merge ?_)))
  simp only [List.forall_mem_cons]
  exact ⟨((heeds_nil.cons_texts _ _).cons_str _ _).cons_str _ _, hoverrides.clojureTest,
    hoverrides.getD heeds_nil _, hset, nofun⟩

/-- The targets of a file are made, and they have texts, unless something that was set is at
fault. -/
theorem ends_targetsFor (h : c.IsReady p d inline test)
    (hoverrides : c.overrides.SetsOnly (Heeds c.settings.validate fit short))
    (hinline : Heeds c.settings.validate fit short inline)
    (hset : Heeds c.settings.validate fit short test) :
    (c.targetsFor p d).Ends (Fault.IsOfSettings c.settings.validate fit short)
      fun ts => ∀ t ∈ ts, t.IsSettled c.settings.validate fit short := by
  obtain ⟨⟨label, hlabel⟩, ⟨strip, hstrip⟩, ⟨needed, hneeded⟩, hlibrary, htest⟩ := h
  rw [targetsFor]
  split
  on_goal 1 => refine (Logged.Returns.say _).bind_ends ?_
  all_goals
    refine (Logged.Returns.of hlabel).bind_ends ((Logged.Returns.of hlibrary).bind_ends
      ((returns_sayInline d _ _).bind_ends ((Logged.Returns.of hstrip).bind_ends
        ((Logged.Returns.of hneeded).bind_ends ?_))))
    refine (Logged.Ends.of (ends_finished_merge ?_)).bind fun library hlibrary => ?_
    · simp only [List.forall_mem_cons]
      exact ⟨(heeds_nil.cons_texts _ _).cons_str _ _, heeds_fileAttributes _ _ _,
        heeds_stripAttributes strip, heeds_nil.cons_texts _ _, hoverrides.clojureLibrary,
        hoverrides.getD heeds_nil label, hinline, nofun⟩
    · split
      · next hfile =>
        refine (ends_testTarget (htest hfile) hoverrides hset).bind fun t ht => ?_
        exact (Logged.Returns.pure _).ends
          (List.forall_mem_cons.2 ⟨hlibrary, List.forall_mem_singleton.2 ht⟩)
      · exact (Logged.Returns.pure _).ends (List.forall_mem_singleton.2 hlibrary)

end Sources.Context

namespace Library.Context

open Attributes

variable {c : Library.Context} {s : ScannedLibrary} {fit short : Prop}

/-- What the targets of a library need besides overrides is there: its archive is one, and all that
its compiled namespaces need is known. -/
structure IsReady (c : Library.Context) (s : ScannedLibrary) : Prop where
  archive : s.archive.suffix = ".jar"
  needed : ∀ d ∈ firstDeclarations s.contents.declarations, c.index.compiles d.name = true →
    ∃ needed, (c.index.libraryLabelTables c.settings.repositoryTag).dependencies d = .ok needed

/-- The target of an archive comes out settled, or fails as the settings say. -/
theorem ends_importTarget {archive : Path} {library : String} (h : archive.suffix = ".jar")
    (hoverrides : c.overrides.SetsOnly (Heeds c.settings.validate fit short)) :
    (c.importTarget archive library).Ends (Fault.IsOfSettings c.settings.validate fit short)
      (Target.IsSettled c.settings.validate fit short) := by
  have hfinished : (Logged.of (Sources.finished c.settings .archiveImport
      (c.importAttributes archive library))).Ends
        (Fault.IsOfSettings c.settings.validate fit short)
        (Target.IsSettled c.settings.validate fit short) := by
    refine .of (Sources.ends_finished_merge ?_)
    simp only [List.forall_mem_cons]
    refine ⟨(heeds_nil.cons_texts _ _).cons_str _ _, ?_, hoverrides.getD heeds_nil _, nofun⟩
    split
    · exact heeds_nil
    · exact (heeds_nil.cons_texts _ _).cons_texts _ _
  rw [importTarget, if_neg (not_not.2 h)]
  dsimp only
  split
  · exact (Logged.Returns.say _).bind_ends hfinished
  · exact hfinished

/-- The target of a module whose dependencies are known comes out settled, or fails as the settings
say. -/
theorem ends_moduleTarget {library : String} {d : Declaration} {needed : List String}
    (h : (c.index.libraryLabelTables c.settings.repositoryTag).dependencies d = .ok needed)
    (hoverrides : c.overrides.SetsOnly (Heeds c.settings.validate fit short)) :
    Except.Ends (Fault.IsOfSettings c.settings.validate fit short)
      (Target.IsSettled c.settings.validate fit short) (c.moduleTarget library d) := by
  rw [moduleTarget, h]
  refine Sources.ends_finished_merge ?_
  simp only [List.forall_mem_cons]
  exact ⟨(((heeds_nil.cons_texts _ []).cons_texts _ _).cons_texts _ _).cons_str _ _,
    heeds_nil.cons_texts _ _, hoverrides.getD heeds_nil _, nofun⟩

/-- The targets of a library are made, and they have texts, unless something that was set is at
fault. -/
theorem ends_targetsOf (h : c.IsReady s)
    (hoverrides : c.overrides.SetsOnly (Heeds c.settings.validate fit short)) :
    (c.targetsOf s).Ends (Fault.IsOfSettings c.settings.validate fit short)
      fun ts => ∀ t ∈ ts, t.IsSettled c.settings.validate fit short := by
  refine (ends_importTarget h.archive hoverrides).bind fun imported himported => ?_
  refine (Logged.Ends.of (Except.Ends.mapM fun d hd => ?_)).bind fun ts hts =>
    (Logged.Returns.pure _).ends (List.forall_mem_cons.2 ⟨himported, hts⟩)
  obtain ⟨hd, hcompiles⟩ := List.mem_filter.1 hd
  obtain ⟨needed, hneeded⟩ := h.needed d hd hcompiles
  exact ends_moduleTarget hneeded hoverrides

end Library.Context

/-- Whatever a manifest overrides, the targets of a source file and those of a library are made and
have texts, or generation stops for something that was set: for a label that is none if labels are
checked, for a value only if one is set that the attribute cannot have, and for an integer that is
too long to be written only if a value with one is set. -/
theorem ends_of_overrides (o : Overrides) :
    (∀ (c : Sources.Context) (p : Path) (d : Declaration) (inline test : Attributes),
      c.overrides = o → c.IsReady p d inline test →
        (Target.rendered (c.targetsFor p d)).Ends
          (Fault.IsOfSettings c.settings.validate
            (o.SetsOnly (Attributes.IsFit c.settings.validate) ∧
              Attributes.IsFit c.settings.validate inline ∧
              Attributes.IsFit c.settings.validate test)
            (o.SetsOnly Attributes.IsShort ∧ inline.IsShort ∧ test.IsShort)) fun _ => True) ∧
      ∀ (c : Library.Context) (s : ScannedLibrary), c.overrides = o → c.IsReady s →
        (Target.rendered (c.targetsOf s)).Ends
          (Fault.IsOfSettings c.settings.validate
            (o.SetsOnly (Attributes.IsFit c.settings.validate)) (o.SetsOnly Attributes.IsShort))
          fun _ => True := by
  constructor
  · rintro c p d inline test rfl h
    exact Target.ends_rendered (Sources.Context.ends_targetsFor h
      (Overrides.setsOnly_heeds And.left And.left) ⟨fun hf => hf.2.1, fun hs => hs.2.1⟩
      ⟨fun hf => hf.2.2, fun hs => hs.2.2⟩)
  · rintro c s rfl h
    exact Target.ends_rendered (Library.Context.ends_targetsOf h (Overrides.setsOnly_heeds id id))

/-- One library without namespaces. -/
def plainLibrary : ScannedLibrary := ⟨⟨.root, ["m", "a.jar"]⟩, "g/a", ⟨[], []⟩⟩

/-- Libraries of which nothing is known but what is overridden. -/
def librariesWith (o : Overrides) : Library.Context where
  index := {}
  overrides := o
  folder := ⟨.root, ["e"]⟩

theorem isReady_librariesWith (o : Overrides) : (librariesWith o).IsReady plainLibrary where
  archive := by decide +kernel
  needed := nofun

/-- One file that needs nothing. -/
def plainFile : Path := ⟨.root, ["p", "src", "a.clj"]⟩

/-- What the file declares. -/
def plainDeclaration : Declaration := ⟨"a", [], [], none, [], "/p/src/a.clj"⟩

/-- Sources whose labels are checked. -/
def sourcesWith (o : Overrides) : Sources.Context where
  index := {}
  overrides := o
  settings := { validate := true }
  base := ⟨.root, ["p"]⟩
  sourcePaths := [.str "src"]

theorem isReady_sourcesWith (o : Overrides) :
    (sourcesWith o).IsReady plainFile plainDeclaration [] [] where
  label := ⟨_, rfl⟩
  strip := ⟨_, by with_unfolding_all rfl⟩
  needed := ⟨_, by with_unfolding_all rfl⟩
  library := rfl
  test _ := rfl

/-- Tags for all files, and a label for the library, which is none. -/
def plainOverrides : Overrides where
  clojureLibrary := [("tags", .texts ["slow"])]
  deps := [("@deps//:g_a", [("deps", .texts ["native"])])]

/-- The plain block sets one attribute for one label. -/
theorem setsOnly_plainOverrides {asked : Attributes → Prop} (hnone : asked [])
    (hone : ∀ key ss, asked [(key, .texts ss)]) : plainOverrides.SetsOnly asked where
  clojureLibrary := hone _ _
  clojureTest := hnone
  deps label a h := by
    obtain ⟨rfl, rfl⟩ : label = "@deps//:g_a" ∧ a = [("deps", .texts ["native"])] := by
      simpa [plainOverrides] using (Entries.get?_eq_some_iff_mem (by decide)).1 h
    exact hone _ _

/-- What it sets is fit. -/
theorem isFit_plainOverrides (validated : Bool) :
    plainOverrides.SetsOnly (Attributes.IsFit validated) :=
  setsOnly_plainOverrides nofun fun _ ss =>
    List.forall_mem_singleton.2 (Attributes.isFitAt_texts ss)

/-- What it sets holds no integer, so that all of it can be written. -/
theorem isShort_plainOverrides : plainOverrides.SetsOnly Attributes.IsShort :=
  setsOnly_plainOverrides nofun fun _ ss =>
    List.forall_mem_singleton.2 (Attributes.holdsLongInteger_texts ss)

/-- The file has its targets unless a label is none, and the library has them in any case, since no
labels are checked there. -/
theorem ends_of_plainOverrides :
    (sourcesWith plainOverrides).IsReady plainFile plainDeclaration [] [] ∧
      (librariesWith plainOverrides).IsReady plainLibrary ∧
      (Target.rendered ((sourcesWith plainOverrides).targetsFor plainFile plainDeclaration)).Ends
        Fault.IsOfLabel (fun _ => True) ∧
      (Target.rendered ((librariesWith plainOverrides).targetsOf plainLibrary)).Ends
        (fun _ => False) fun _ => True := by
  have hsources := isReady_sourcesWith plainOverrides
  have hlibraries := isReady_librariesWith plainOverrides
  obtain ⟨hfile, hlibrary⟩ := ends_of_overrides plainOverrides
  refine ⟨hsources, hlibraries, ?_, ?_⟩
  · refine (hfile _ _ _ _ _ rfl hsources).mono (fun e he => (he.isOfLabel ?_ ?_).2) fun _ h => h
    · exact ⟨isFit_plainOverrides _, nofun, nofun⟩
    · exact ⟨isShort_plainOverrides, nofun, nofun⟩
  · refine (hlibrary _ _ rfl hlibraries).mono (fun e he => ?_) fun _ h => h
    cases (he.isOfLabel (isFit_plainOverrides _) isShort_plainOverrides).1

/-! ## A value that cannot be written -/

/-- A manifest that sets an attribute of a library to null. -/
def nullManifest : String :=
  "\x7b:bazel \x7b:deps \x7b\"@deps//:g_a\" \x7b:tags nil\x7d\x7d\x7d\x7d"

/-- The writing stops at null. -/
def stopsAtNull : Except Fault (List String) → Bool
  | .error (.unwritable .nil) => true
  | _ => false

/-- The test that is evaluated tells of the fault. -/
theorem eq_of_stopsAtNull {x : Except Fault (List String)} (h : stopsAtNull x = true) :
    x = .error (.unwritable .nil) := by
  unfold stopsAtNull at h
  split at h
  · rfl
  · cases h

/-- A manifest may be accepted although a target cannot be written with what it sets. -/
theorem exists_fails_of_nullManifest :
    ∃ m, Manifest.ofText ⟨.root, ["p", "deps.edn"]⟩ nullManifest = .ok m ∧
      ∃ (c : Library.Context) (s : ScannedLibrary), c.overrides = m.overrides ∧ c.IsReady s ∧
        (Target.rendered (c.targetsOf s)).Fails (.unwritable .nil) := by
  have hstops : (match Manifest.ofText ⟨.root, ["p", "deps.edn"]⟩ nullManifest with
      | .ok m => ((librariesWith m.overrides).targetsOf plainLibrary).comesTo fun ts =>
          stopsAtNull (ts.mapM Target.render)
      | .error _ => false) = true := by
    decide +kernel
  split at hstops
  · next m hm =>
    obtain ⟨ts, hts, hstops⟩ := Logged.exists_yields _ _ hstops
    have hready := isReady_librariesWith m.overrides
    refine ⟨m, hm, librariesWith m.overrides, plainLibrary, rfl, hready, ?_⟩
    have hends := Library.Context.ends_targetsOf hready (Overrides.setsOnly_heeds id id)
    refine (hts.returns hends.isSteady).bind_fails ?_
    rw [eq_of_stopsAtNull hstops]
    exact .throw _
  · cases hstops

end BuildFiles
