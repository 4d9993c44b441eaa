import BuildFiles.Proofs.Library.Imports

/-!
# Names of the targets of libraries

Each target of the libraries has an `Origin`: a library, a namespace of one that is compiled, or all
libraries. Its name is the text of the origin with an underscore for every character that is none of
a word, so two names are one exactly if the texts are `Label.Alike`. No two targets have the same
origin (`names_of_targets`); the names differ, and no target of a namespace depends on itself, as
long as the index `KeepsApart` what becomes alike. That it need not is `exists_repeated_name`.
-/

namespace BuildFiles

/-! ## Texts that become the same -/

namespace Label

/-- The character that a name has for a character. -/
def mungeChar (c : Char) : Char := if Text.isWord c then c else '_'

/-- The texts are equal up to characters that become an underscore in a name. -/
def Alike (a b : String) : Prop :=
  List.Forall₂ (fun x y => x = y ∨ mungeChar x = '_' ∧ mungeChar y = '_') a.toList b.toList

/-- Two characters are munged alike if they are the same, or if both become an underscore. -/
theorem mungeChar_eq_iff {x y : Char} :
    mungeChar x = mungeChar y ↔ x = y ∨ mungeChar x = '_' ∧ mungeChar y = '_' := by
  constructor
  · intro h
    by_cases hx : mungeChar x = '_'
    · exact .inr ⟨hx, h ▸ hx⟩
    · have hself : ∀ z, mungeChar z ≠ '_' → mungeChar z = z := by
        intro z hz
        rw [mungeChar] at hz ⊢
        split at hz
        · next hword => rw [if_pos hword]
        · exact absurd rfl hz
      exact .inl (by rw [← hself x hx, h, hself y (h ▸ hx)])
  · rintro (rfl | ⟨hx, hy⟩)
    · rfl
    · rw [hx, hy]

/-- Munging goes character by character, so it keeps the length. -/
theorem toList_munge (a : String) : (munge a).toList = a.toList.map mungeChar := by
  rw [munge, String.toList_map]
  rfl

/-- Exactly what is alike gets the same name. -/
theorem munge_eq_iff {a b : String} : munge a = munge b ↔ Alike a b := by
  rw [← String.toList_inj, toList_munge, toList_munge, ← List.forall₂_eq_eq_eq,
    List.forall₂_map_left_iff, List.forall₂_map_right_iff, Alike]
  simp only [mungeChar_eq_iff]

/-- Texts can be munged piece by piece. -/
theorem munge_append (a b : String) : munge (a ++ b) = munge a ++ munge b := by
  rw [← String.toList_inj, String.toList_append, toList_munge, toList_munge, toList_munge,
    String.toList_append, List.map_append]

/-- Labels with one tag are told apart by their names. -/
theorem qualify_inj {tag name name' : String} (h : qualify tag name = qualify tag name') :
    name = name' := by
  have hlists := congrArg String.toList h
  simp only [qualify, String.toList_append, List.append_assoc, List.append_cancel_left_eq] at hlists
  exact String.toList_inj.1 hlists

end Label

namespace Library

/-! ## Origins -/

/-- What a target of the libraries stands for. -/
inductive Origin where
  | library (library : String)
  /-- a namespace of a library -/
  | module (library ns : String)
  /-- all libraries -/
  | all
  deriving DecidableEq

namespace Origin

/-- The text that the name is made from. -/
def text : Origin → String
  | .library l => l
  | .module l ns => "ns/" ++ l ++ "/" ++ ns
  | .all => "__all"

/-- The name of the target. -/
def name (o : Origin) : String := Label.munge o.text

/-- The name of the target of a module. -/
theorem name_module (l ns : String) : (module l ns).name = Label.compiled l ns := by
  have hstart : Label.munge "ns/" = "ns_" := by
    rw [← String.toList_inj, Label.toList_munge]
    decide +kernel
  have hslash : Label.munge "/" = "_" := by
    rw [← String.toList_inj, Label.toList_munge]
    decide +kernel
  rw [name, text, Label.munge_append, Label.munge_append, Label.munge_append, hstart, hslash]
  rfl

/-- The name of the target that collects all others. -/
theorem name_all : all.name = "__all" := by
  rw [name, ← String.toList_inj, Label.toList_munge]
  decide +kernel

/-- Origins have one name just if their texts are alike: the name is the text, munged. -/
theorem name_eq_iff {o o' : Origin} : o.name = o'.name ↔ Label.Alike o.text o'.text :=
  Label.munge_eq_iff

end Origin

end Library

open Library (Origin)

namespace Index

variable {i : Index}

/-- There is something in the index that gets a target. -/
inductive Has (i : Index) : Origin → Prop
  | library {s : ScannedLibrary} (hs : s ∈ i.scanned) : Has i (.library s.library)
  | module {s : ScannedLibrary} {ns : String} (hs : s ∈ i.scanned)
    (hns : ns ∈ s.contents.namespaces) (hcompiled : i.compiles ns = true) :
    Has i (.module s.library ns)
  | all : Has i .all

/-- No two things that get a target become alike. -/
def KeepsApart (i : Index) : Prop :=
  ∀ o o', i.Has o → i.Has o' → Label.Alike o.text o'.text → o = o'

/-- The classes that a declaration names are in libraries. -/
theorem exists_origin_of_classLabels {tag : String} {classNames labels : List String}
    (h : (i.libraryLabelTables tag).classLabels classNames = .ok labels) {label : String}
    (hlabel : label ∈ labels) :
    ∃ s ∈ i.scanned, label = Label.qualify tag (Origin.library s.library).name := by
  obtain ⟨found, hfound, hpure⟩ := Except.bind_eq_ok h
  obtain rfl := Except.ok.inj hpure
  rw [Text.mem_sortedOnce, List.mem_filterMap] at hlabel
  obtain ⟨_, hmem, rfl⟩ := hlabel
  obtain ⟨className, -, hclass⟩ := exists_left_of_forall₂ (Except.forall₂_of_mapM hfound) hmem
  rw [LabelTables.classLabel?] at hclass
  split at hclass
  · next archive harchive =>
    obtain ⟨s, hs, hlibrary⟩ := i.exists_library_of_class harchive
    have hfind : (i.libraryLabelTables tag).archiveLibraries.get? archive = some s.library :=
      hlibrary
    rw [LabelTables.archiveLabel, hfind] at hclass
    exact ⟨s, hs, (Option.some.inj (Except.ok.inj hclass)).symm⟩
  · cases hclass

/-- What stands for a namespace of a library in labels is a target of its own. -/
theorem exists_origin_of_libraryTargets {ns name : String}
    (h : i.libraryTargets.get? ns = some name) : ∃ s ∈ i.scanned, name = Origin.name
      (if i.compiles ns then .module s.library ns else .library s.library) ∧
        i.Has (if i.compiles ns then .module s.library ns else .library s.library) := by
  obtain ⟨⟨ns', library⟩, hmem, hpair⟩ := List.mem_map.1 (Entries.mem_of_get?_ofList h)
  obtain ⟨rfl, rfl⟩ := Prod.mk.inj hpair
  obtain ⟨s, hs, hmem⟩ := List.mem_flatMap.1 hmem
  obtain ⟨ns', hns, hpair⟩ := List.mem_map.1 hmem
  obtain ⟨rfl, rfl⟩ := Prod.mk.inj hpair
  refine ⟨s, hs, ?_⟩
  rw [targetName]
  split
  · next hcompiled => exact ⟨(Origin.name_module ..).symm, .module hs hns hcompiled⟩
  · exact ⟨rfl, .library hs⟩

/-- What a library depends on is something that gets a target, and not the namespace itself. -/
theorem exists_origin_of_dependencies {tag : String} {d : Declaration} {labels : List String}
    (h : (i.libraryLabelTables tag).dependencies d = .ok labels) {label : String}
    (hlabel : label ∈ labels) :
    ∃ o, i.Has o ∧ label = Label.qualify tag o.name ∧ ∀ l, o ≠ .module l d.name := by
  obtain ⟨imported, himported, h⟩ := Except.bind_eq_ok h
  obtain ⟨extended, hextended, hpure⟩ := Except.bind_eq_ok h
  obtain rfl := Except.ok.inj hpure
  rw [Text.mem_sortedOnce, List.mem_append, List.mem_append] at hlabel
  have hclass : (∃ s ∈ i.scanned, label = Label.qualify tag (Origin.library s.library).name) →
      ∃ o, i.Has o ∧ label = Label.qualify tag o.name ∧ ∀ l, o ≠ .module l d.name :=
    fun ⟨s, hs, hname⟩ => ⟨.library s.library, .library hs, hname, fun _ => nofun⟩
  rcases hlabel with (hlabel | hlabel) | hlabel
  · rw [LabelTables.requireLabels, Text.mem_sortedOnce, List.mem_filterMap] at hlabel
    obtain ⟨ns, hns, hname⟩ := hlabel
    have hne : ns ≠ d.name := by simpa using (List.mem_filter.1 hns).2
    obtain ⟨name, hget, rfl⟩ := Option.map_eq_some_iff.1
      (show (i.libraryTargets.get? ns).map (Label.qualify tag) = some label from hname)
    obtain ⟨s, hs, hname, hhas⟩ := exists_origin_of_libraryTargets hget
    refine ⟨_, hhas, by rw [hname], fun l => ?_⟩
    split
    · exact fun heq => hne (Origin.module.inj heq).2
    · exact nofun
  · exact hclass (exists_origin_of_classLabels himported hlabel)
  · exact hclass (exists_origin_of_classLabels hextended hlabel)

end Index

/-! ## The first declarations of namespaces -/

/-- Collecting the first declarations of namespaces collects none twice. -/
theorem nodup_keys_foldl_insertNew {ds : List Declaration} {seen : Entries String Declaration}
    (h : seen.keys.Nodup) :
    (ds.foldl (fun seen d => seen.insertNew d.name d) seen).keys.Nodup := by
  induction ds generalizing seen with
  | nil => exact h
  | cons d ds ih => exact ih (Entries.nodup_keys_insertNew h d.name d)

/-- Their names are the namespaces that are collected. -/
theorem map_name_firstDeclarations (ds : List Declaration) :
    (firstDeclarations ds).map (·.name) =
      (ds.foldl (fun (seen : Entries String Declaration) d =>
        seen.insertNew d.name d) []).keys := by
  rw [firstDeclarations, Entries.values, Entries.keys, List.map_map]
  exact List.map_congr_left fun e he => (key_eq_of_mem_foldl_insertNew (by simp) e he).symm

/-- Each namespace of an archive has one first declaration. -/
theorem nodup_map_name_firstDeclarations (ds : List Declaration) :
    ((firstDeclarations ds).map (·.name)).Nodup := by
  rw [map_name_firstDeclarations]
  exact nodup_keys_foldl_insertNew (by simp [Entries.keys])

/-- Every namespace of an archive has a first declaration. -/
theorem mem_map_name_firstDeclarations {contents : Archive.Contents} {ns : String} :
    ns ∈ (firstDeclarations contents.declarations).map (·.name) ↔ ns ∈ contents.namespaces := by
  rw [map_name_firstDeclarations, mem_keys_foldl_insertNew, Archive.Contents.namespaces,
    Text.mem_sortedOnce, List.mem_map]
  simp [Entries.keys]

namespace Library.Context

variable {c : Context}

/-! ## The origins of all targets -/

/-- The origins of the targets of a library. -/
def originsOf (i : Index) (s : ScannedLibrary) : List Origin :=
  .library s.library ::
    (((firstDeclarations s.contents.declarations).filter fun d => i.compiles d.name).map
      (·.name)).map (.module s.library)

/-- The origins of all targets in their order. -/
def origins (c : Context) : List Origin := c.libraries.flatMap (originsOf c.index) ++ [.all]

/-- A library has one target for its archive, and one for each namespace in it that is compiled. -/
theorem mem_originsOf {i : Index} {s : ScannedLibrary} {o : Origin} :
    o ∈ originsOf i s ↔ o = .library s.library ∨
      ∃ ns ∈ s.contents.namespaces, i.compiles ns = true ∧ o = .module s.library ns := by
  rw [originsOf, List.mem_cons, List.mem_map]
  refine or_congr Iff.rfl ⟨?_, ?_⟩
  · rintro ⟨ns, hns, rfl⟩
    obtain ⟨d, hd, rfl⟩ := List.mem_map.1 hns
    obtain ⟨hfirst, hcompiled⟩ := List.mem_filter.1 hd
    exact ⟨d.name, mem_map_name_firstDeclarations.1 (List.mem_map_of_mem hfirst), hcompiled, rfl⟩
  · rintro ⟨ns, hns, hcompiled, rfl⟩
    obtain ⟨d, hd, rfl⟩ := List.mem_map.1 (mem_map_name_firstDeclarations.2 hns)
    exact ⟨d.name, List.mem_map_of_mem (List.mem_filter.2 ⟨hd, hcompiled⟩), rfl⟩

/-- The origins are just those that the index has. -/
theorem mem_origins {o : Origin} : o ∈ c.origins ↔ c.index.Has o := by
  simp only [origins, List.mem_append, List.mem_singleton, List.mem_flatMap, mem_libraries,
    mem_originsOf]
  constructor
  · rintro (⟨s, hs, rfl | ⟨ns, hns, hcompiled, rfl⟩⟩ | rfl)
    · exact .library hs
    · exact .module hs hns hcompiled
    · exact .all
  · rintro (hs | ⟨hs, hns, hcompiled⟩ | -)
    · exact .inl ⟨_, hs, .inl rfl⟩
    · exact .inl ⟨_, hs, .inr ⟨_, hns, hcompiled, rfl⟩⟩
    · exact .inr rfl

/-- No origin of a library is listed twice. -/
theorem nodup_originsOf (i : Index) (s : ScannedLibrary) : (originsOf i s).Nodup := by
  have hnames : (((firstDeclarations s.contents.declarations).filter fun d =>
      i.compiles d.name).map (·.name)).Nodup :=
    (nodup_map_name_firstDeclarations _).sublist (List.filter_sublist.map _)
  rw [originsOf, List.nodup_cons]
  refine ⟨by simp, hnames.map fun ns ns' h => (Origin.module.inj h).2⟩

/-- Targets of different libraries have different origins, since each origin but that of `__all`
names its library; so no origin comes up twice. -/
theorem nodup_origins (h : (c.index.scanned.map (·.library)).Nodup) : c.origins.Nodup := by
  have hdistinct : (c.libraries.map (·.library)).Nodup :=
    ((List.mergeSort_perm c.index.scanned _).map _).nodup_iff.2 h
  have hlists : (c.libraries.flatMap (originsOf c.index)).Nodup := by
    rw [List.nodup_flatMap]
    refine ⟨fun s _ => nodup_originsOf c.index s, (List.pairwise_map.1 hdistinct).imp ?_⟩
    intro s s' hne o ho ho'
    rcases mem_originsOf.1 ho with rfl | ⟨ns, -, -, rfl⟩
    · rcases mem_originsOf.1 ho' with h | ⟨ns', -, -, h⟩
      · exact hne (Origin.library.inj h)
      · cases h
    · rcases mem_originsOf.1 ho' with h | ⟨ns', -, -, h⟩
      · cases h
      · exact hne (Origin.module.inj h).1
  rw [origins, List.nodup_append]
  refine ⟨hlists, List.nodup_singleton _, ?_⟩
  rintro o ho o' ho' rfl
  obtain rfl := List.mem_singleton.1 ho'
  obtain ⟨s, -, hs⟩ := List.mem_flatMap.1 ho
  rcases mem_originsOf.1 hs with h | ⟨ns, -, -, h⟩ <;> cases h

/-- Unless an override renames one, the targets of a library have the names of its origins, in their
order. -/
theorem names_of_targetsOf (hnames : c.KeepsNames) {s : ScannedLibrary} {ts : List Target}
    (h : (c.targetsOf s).Yields ts) :
    List.Forall₂ (fun o t => t.name = .ok (Origin.name o)) (originsOf c.index s) ts := by
  obtain ⟨imported, himported, hrest⟩ := h.bind
  obtain ⟨modules, hmodules, hpure⟩ := hrest.bind
  obtain rfl := hpure.pure
  refine .cons (name_of_importTarget hnames himported) ?_
  rw [List.forall₂_map_left_iff, List.forall₂_map_left_iff]
  refine (Except.forall₂_of_mapM hmodules.of).imp fun d t ht => ?_
  rw [Origin.name_module]
  exact name_of_moduleTarget hnames ht

/-- The targets are named after their origins. -/
theorem names_of_targets (hnames : c.KeepsNames) {targets : List Target}
    (h : c.targets.Yields targets) :
    List.Forall₂ (fun o t => t.name = .ok (Origin.name o)) c.origins targets := by
  obtain ⟨lists, hlists, hpure⟩ := h.bind
  obtain rfl := hpure.pure
  refine List.rel_append ?_ (.cons (congrArg Except.ok Origin.name_all.symm) .nil)
  rw [List.flatMap_def]
  refine List.rel_flatten ?_
  rw [List.forall₂_map_left_iff]
  exact hlists.mapM.imp fun s ts hts => names_of_targetsOf hnames hts

/-- The targets of all libraries have names, which are those of their origins in the same order. -/
theorem mapM_name_of_targets (hnames : c.KeepsNames) {targets : List Target}
    (h : c.targets.Yields targets) :
    targets.mapM Target.name = .ok (c.origins.map Origin.name) := by
  refine Except.mapM_of_forall₂ ?_
  rw [List.forall₂_map_right_iff]
  exact (names_of_targets hnames h).flip

/-! ## Dependencies on oneself -/

/-- A target that compiles a namespace is made for a module that the index has; no other target is
of its kind. -/
theorem exists_of_compiledModule {targets : List Target} (h : c.targets.Yields targets)
    {t : Target} (ht : t ∈ targets) (hkind : t.kind = .compiledModule) :
    ∃ s d, c.index.Has (.module s d.name) ∧ c.moduleTarget s d = .ok t := by
  obtain ⟨lists, hlists, hpure⟩ := h.bind
  obtain rfl := hpure.pure
  rcases List.mem_append.1 ht with ht | ht
  · obtain ⟨ts, hts, ht⟩ := List.mem_flatten.1 ht
    obtain ⟨s, hs, htargets⟩ := exists_left_of_forall₂ hlists.mapM hts
    obtain ⟨imported, himported, hrest⟩ := htargets.bind
    obtain ⟨modules, hmodules, hpure⟩ := hrest.bind
    obtain rfl := hpure.pure
    rcases List.mem_cons.1 ht with rfl | ht
    · rw [(finished_eq_ok (finished_of_importTarget himported)).1] at hkind
      cases hkind
    · obtain ⟨d, hd, hmodule⟩ := exists_left_of_forall₂ (Except.forall₂_of_mapM hmodules.of) ht
      obtain ⟨hfirst, hcompiled⟩ := List.mem_filter.1 hd
      have hns := mem_map_name_firstDeclarations.1 (List.mem_map_of_mem (f := (·.name)) hfirst)
      exact ⟨s.library, d, .module (mem_libraries.1 hs) hns hcompiled, hmodule⟩
  · obtain rfl := List.mem_singleton.1 ht
    cases hkind

/-- A dependency of a target is a member of the attribute that holds them. -/
theorem isMember_of_deps {t : Target} {ds : List Datum} {d : Datum} (h : t.deps = .ok ds)
    (hd : d ∈ ds) :
    ∃ value, t.attributes.get? "deps" = some value ∧ Attributes.IsMember d value := by
  rw [Target.deps] at h
  split at h
  · cases h
    cases hd
  · next value hvalue =>
    split at h
    · next xs hxs =>
      obtain rfl := Except.ok.inj h
      exact ⟨value, hvalue, _, hxs, hd⟩
    · cases h

/-- Where nothing becomes alike, only an override has the target of a namespace depend on itself. -/
theorem exists_override_of_own_label (hapart : c.index.KeepsApart) {library : String}
    {d : Declaration} (hhas : c.index.Has (.module library d.name)) {t : Target}
    (ht : c.moduleTarget library d = .ok t) {ds : List Datum} (hds : t.deps = .ok ds)
    (hown : .str (Label.qualify c.settings.repositoryTag (Label.compiled library d.name)) ∈ ds) :
    ∃ value, ("deps", value) ∈ c.overridesAt (Label.compiled library d.name) ∧
      Attributes.IsMember
        (.str (Label.qualify c.settings.repositoryTag (Label.compiled library d.name))) value := by
  obtain ⟨needed, hneeded, h⟩ := Except.bind_eq_ok ht
  obtain ⟨value, hvalue, hmember⟩ := isMember_of_deps hds hown
  obtain ⟨layer, hlayer, v, hv, hmember⟩ :=
    Attributes.exists_layer_of_normalize (finished_eq_ok h).2 hvalue hmember
  -- another origin with the name of the namespace would be alike
  have hother : ∀ o, c.index.Has o → (∀ l, o ≠ .module l d.name) →
      Label.qualify c.settings.repositoryTag (Label.compiled library d.name) ≠
        Label.qualify c.settings.repositoryTag o.name := by
    intro o ho hne heq
    have hname := Label.qualify_inj heq
    rw [← Origin.name_module] at hname
    exact hne library (hapart _ _ hhas ho (Origin.name_eq_iff.1 hname)).symm
  simp only [List.mem_cons, List.not_mem_nil, or_false] at hlayer
  rcases hlayer with rfl | rfl | rfl
  · simp only [List.mem_cons, List.not_mem_nil, or_false, Prod.mk.injEq] at hv
    obtain rfl : v = .texts [Label.qualify c.settings.repositoryTag (Label.munge library)] := by
      simpa using hv
    obtain ⟨s, hs, heq⟩ := Attributes.isMember_texts.1 hmember
    obtain rfl := List.mem_singleton.1 hs
    cases hhas with
    | module hthere => exact absurd (Datum.str.inj heq) (hother _ (.library hthere) fun _ => nofun)
  · obtain rfl := (Prod.mk.inj (List.mem_singleton.1 hv)).2
    obtain ⟨label, hlabel, heq⟩ := Attributes.isMember_texts.1 hmember
    obtain ⟨o, ho, rfl, hne⟩ := Index.exists_origin_of_dependencies hneeded hlabel
    exact absurd (Datum.str.inj heq) (hother o ho hne)
  · exact ⟨v, hv, hmember⟩

end Library.Context

/-- The targets of an index have one origin each and are named after it. The names differ exactly
if the index keeps apart what becomes alike; then no target of a namespace depends on itself unless
an override says so. -/
theorem names_of_index {base : Path} {named : List String} {b : Basis} {i : Index}
    {before mid : Session} (hindex : (Run.index base named b).Yields before i mid)
    {c : Library.Context} (hc : c.index = i) (hnames : c.KeepsNames) {targets : List Target}
    (h : c.targets.Yields targets) :
    ∃ origins : List Origin, origins.Nodup ∧ (∀ o, o ∈ origins ↔ i.Has o) ∧
      targets.mapM Target.name = .ok (origins.map Origin.name) ∧
      ((origins.map Origin.name).Nodup ↔ i.KeepsApart) ∧
      (i.KeepsApart → ∀ t ∈ targets, t.kind = .compiledModule →
        ∀ name ds, t.name = .ok name → t.deps = .ok ds →
          .str (Label.qualify c.settings.repositoryTag name) ∈ ds →
          ∃ value, ("deps", value) ∈ c.overridesAt name ∧
            Attributes.IsMember (.str (Label.qualify c.settings.repositoryTag name)) value) := by
  subst hc
  have hnodup := Library.Context.nodup_origins (isOf_of_index hindex).nodup_libraries
  refine ⟨c.origins, hnodup, fun o => Library.Context.mem_origins,
    Library.Context.mapM_name_of_targets hnames h, ?_, ?_⟩
  · rw [List.nodup_map_iff_inj_on hnodup]
    simp only [Library.Context.mem_origins, Origin.name_eq_iff]
    exact ⟨fun hinj o o' ho ho' => hinj o ho o' ho', fun hapart o ho o' ho' => hapart o o' ho ho'⟩
  · intro hapart t ht hkind name ds hname hds hown
    obtain ⟨library, d, hhas, hmodule⟩ := Library.Context.exists_of_compiledModule h ht hkind
    obtain rfl := Except.ok.inj
      (hname.symm.trans (Library.Context.name_of_moduleTarget hnames hmodule))
    exact Library.Context.exists_override_of_own_label hapart hhas hmodule hds hown

/-! ## Names that are not distinct -/

/-- The small basis is indexed where its archive is known, and its targets can be made. -/
theorem exists_index_of_smallBasis (before : Session) {contents : Archive.Contents}
    (hbefore : before.archives = [(.parse "/r/a.jar", contents)]) :
    ∃ i mid targets, (Run.index (.parse "/w") [] smallBasis).Yields before i mid ∧
      i.scanned = [⟨.parse "/r/a.jar", "g/a", contents⟩] ∧
      ({ index := i, folder := .parse "/w" } : Library.Context).targets.Returns targets := by
  have hget : before.archives.get? (.parse "/r/a.jar") = some contents := by
    rw [hbefore, Entries.get?_cons, if_pos (by simp)]
  have hknown : ∀ claim ∈ smallBasis.libraries,
      ∃ contents, before.archives.get? claim.1 = some contents := by
    intro claim hclaim
    obtain rfl := List.mem_singleton.1 hclaim
    exact ⟨contents, hget⟩
  obtain ⟨i, mid, hindex, hall⟩ := Run.exists_index (b := smallBasis) rfl (by simp [smallBasis,
    Basis.libraries]) (by simp [smallBasis, Basis.libraries]) hknown (.parse "/w") []
  have hscanned : i.scanned = [⟨.parse "/r/a.jar", "g/a", contents⟩] := by
    obtain ⟨⟨archive, library, found⟩, hx, hclaim⟩ :=
      List.map_eq_singleton_iff.1 (isOf_of_index hindex).claims
    obtain ⟨rfl, rfl⟩ := Prod.mk.inj hclaim
    have hfound := hall _ (hx ▸ List.mem_singleton_self _)
    rw [hx, Option.some.inj (hget.symm.trans hfound)]
  have hchecked : ({} : Settings).checked = .ok {} := if_pos (by decide)
  have hsuffix : (Path.parse "/r/a.jar").suffix = ".jar" := by decide +kernel
  obtain ⟨targets, htargets, -⟩ := Library.Context.exists_targets
    (c := { index := i, folder := .parse "/w" }) (fun _ => rfl) hchecked
    (by simp [hscanned, hsuffix])
  exact ⟨i, mid, targets, hindex, hscanned, htargets⟩

/-- One library with one namespace has three targets, whose names are all different. -/
theorem names_of_smallIndex : ∃ i mid targets,
    (Run.index (.parse "/w") [] smallBasis).Yields smallSession i mid ∧
      ({ index := i, folder := .parse "/w" } : Library.Context).targets.Yields targets ∧
      ∃ origins : List Origin, origins.Nodup ∧
        (∀ o, o ∈ origins ↔ o = .library "g/a" ∨ o = .module "g/a" "a.core" ∨ o = .all) ∧
        targets.mapM Target.name = .ok (origins.map Origin.name) := by
  obtain ⟨i, mid, targets, hindex, hscanned, htargets⟩ :=
    exists_index_of_smallBasis smallSession rfl
  obtain ⟨origins, hnodup, hmem, hnames, -⟩ := names_of_index hindex
    (c := { index := i, folder := .parse "/w" }) rfl nofun htargets.yields
  refine ⟨i, mid, targets, hindex, htargets.yields, origins, hnodup, fun o => (hmem o).trans ?_,
    hnames⟩
  have hlibrary : ∀ s, s ∈ i.scanned ↔
      s = ⟨.parse "/r/a.jar", "g/a", ⟨[smallDeclaration "a.core" []], []⟩⟩ := by
    simp [hscanned]
  have hns : ∀ ns, ns ∈ Archive.Contents.namespaces ⟨[smallDeclaration "a.core" []], []⟩ ↔
      ns = "a.core" := by
    simp [Archive.Contents.namespaces, smallDeclaration]
  constructor
  · rintro (hs | ⟨hs, hmem, -⟩ | -)
    · obtain rfl := (hlibrary _).1 hs
      exact .inl rfl
    · obtain rfl := (hlibrary _).1 hs
      obtain rfl := (hns _).1 hmem
      exact .inr (.inl rfl)
    · exact .inr (.inr rfl)
  · rintro (rfl | rfl | rfl)
    · exact .library ((hlibrary _).2 rfl)
    · exact .module ((hlibrary _).2 rfl) ((hns _).2 rfl) ((compiles_of_index hindex).2 (by decide))
    · exact .all

/-- A session that knows an archive with two namespaces, of which one requires the other. -/
def clashingSession : Session where
  tree := {}
  archives := [(.parse "/r/a.jar",
    ⟨[smallDeclaration "b-c" ["b.c"], smallDeclaration "b.c" []], []⟩)]

/-- Namespaces that differ in a character that is none of a word get targets of one name. -/
theorem exists_repeated_name : ∃ i mid targets names,
    (Run.index (.parse "/w") [] smallBasis).Yields clashingSession i mid ∧
      ({ index := i, folder := .parse "/w" } : Library.Context).targets.Returns targets ∧
      targets.mapM Target.name = .ok names ∧ ¬ names.Nodup := by
  obtain ⟨i, mid, targets, hindex, hscanned, htargets⟩ :=
    exists_index_of_smallBasis clashingSession rfl
  have hkeeps : ({ index := i, folder := .parse "/w" } : Library.Context).KeepsNames := nofun
  set c : Library.Context := { index := i, folder := .parse "/w" }
  have hnames : targets.mapM Target.name = .ok (c.origins.map Origin.name) :=
    Library.Context.mapM_name_of_targets hkeeps htargets.yields
  have hnodup : c.origins.Nodup :=
    Library.Context.nodup_origins (isOf_of_index hindex).nodup_libraries
  refine ⟨i, mid, targets, _, hindex, htargets, hnames, fun hdistinct => ?_⟩
  have hhas : ∀ ns, ns = "b-c" ∨ ns = "b.c" → i.Has (.module "g/a" ns) := by
    intro ns hns
    have hs : (⟨.parse "/r/a.jar", "g/a", ⟨[smallDeclaration "b-c" ["b.c"],
        smallDeclaration "b.c" []], []⟩⟩ : ScannedLibrary) ∈ i.scanned := by
      rw [hscanned]
      exact List.mem_singleton_self _
    refine .module hs ?_ ((compiles_of_index hindex).2 ?_)
    · rw [Archive.Contents.namespaces, Text.mem_sortedOnce]
      simpa [smallDeclaration] using hns
    · rcases hns with rfl | rfl <;> decide
  have halike : Origin.name (.module "g/a" "b-c") = Origin.name (.module "g/a" "b.c") := by
    rw [Origin.name, Origin.name, ← String.toList_inj, Label.toList_munge, Label.toList_munge]
    decide +kernel
  have hsame := (List.nodup_map_iff_inj_on hnodup).1 hdistinct _
    (Library.Context.mem_origins.2 (hhas _ (.inl rfl))) _
    (Library.Context.mem_origins.2 (hhas _ (.inr rfl))) halike
  exact absurd hsame (by decide)

end BuildFiles
