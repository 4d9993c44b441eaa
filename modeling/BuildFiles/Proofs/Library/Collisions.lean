import BuildFiles.Proofs.Determinacy
import BuildFiles.Proofs.Entries
import BuildFiles.Proofs.Library.Names

/-!
# What is declared more than once

Several archives may declare a namespace or hold a class, and one archive may declare a namespace
several times. Between archives the last one on the classpath wins: the maps of an index are written
archive by archive (`Index.get?_libraryTargets`, `Index.get?_classArchives`). Inside an archive the
first declaration wins: it is the only one that a target is made from (`Library.Context.UsesFirst`).
`settlesCollisions_of_index` says so of every index that is built.
-/

namespace BuildFiles

/-- The archive of a library declares a namespace. -/
def ScannedLibrary.Declares (s : ScannedLibrary) (ns : String) : Prop :=
  ∃ d ∈ s.contents.declarations, d.name = ns

theorem ScannedLibrary.mem_namespaces {s : ScannedLibrary} {ns : String} :
    ns ∈ s.contents.namespaces ↔ s.Declares ns := by
  rw [Archive.Contents.namespaces, Text.mem_sortedOnce, List.mem_map, Declares]

/-! ## Between archives -/

namespace Index

variable {i : Index}

theorem libraryTargets_eq (i : Index) : i.libraryTargets = .ofList (i.scanned.flatMap fun s =>
    s.contents.namespaces.map fun ns => (ns, i.targetName s.library ns)) := by
  rw [libraryTargets, libraryNamespaces, List.map_flatMap]
  simp only [List.map_map, Function.comp_def]

theorem mem_keys_libraryTargets {ns : String} :
    ns ∈ i.libraryTargets.keys ↔ ∃ s ∈ i.scanned, s.Declares ns := by
  rw [libraryTargets_eq, Entries.mem_keys_ofList]
  simp [Entries.keys, ScannedLibrary.mem_namespaces]

/-- The last archive that declares a namespace decides what stands for it. -/
theorem get?_libraryTargets {ns name : String} : i.libraryTargets.get? ns = some name ↔
    ∃ s, IsLastWith (fun s => s.Declares ns) i.scanned s ∧ name = i.targetName s.library ns := by
  rw [libraryTargets_eq, Entries.get?_ofList_flatMap]
  simp only [ScannedLibrary.mem_namespaces]

theorem mem_keys_classArchives {className : String} :
    className ∈ i.classArchives.keys ↔ ∃ s ∈ i.scanned, className ∈ s.contents.classes := by
  rw [classArchives, Entries.mem_keys_ofList]
  simp [Entries.keys]

/-- The last archive that holds a class is the one that it is taken from. -/
theorem get?_classArchives {className : String} {archive : Path} :
    i.classArchives.get? className = some archive ↔
      ∃ s, IsLastWith (fun s => className ∈ s.contents.classes) i.scanned s ∧
        archive = s.archive := by
  have hlast := @Entries.get?_ofList_flatMap _ _ _ _ _ i.scanned (fun s => s.contents.classes)
    (fun s _ => s.archive) className archive
  exact hlast

end Index

/-! ## Inside an archive -/

/-- Of the declarations of a namespace the first is kept. -/
theorem filter_firstDeclarations (ds : List Declaration) (ns : String) :
    (firstDeclarations ds).filter (fun d => d.name == ns) =
      (ds.find? fun d => d.name == ns).toList := by
  set first : Entries String Declaration :=
    ds.foldl (fun seen d => seen.insertNew d.name d) [] with hfirst
  have hnodup : first.keys.Nodup := nodup_keys_foldl_insertNew (by simp [Entries.keys])
  have hget : first.get? ns = ds.find? fun d => d.name == ns := by
    rw [hfirst, Entries.get?_foldl_insertNew]
    simp
  have hkeys : first.filter (fun e => e.2.name == ns) = first.filter fun e => e.1 == ns :=
    List.filter_congr fun e he => by rw [key_eq_of_mem_foldl_insertNew (by simp) e he]
  rw [firstDeclarations, Entries.values, List.filter_map, ← hget,
    ← Entries.values_filter_of_nodup hnodup, ← hkeys]
  rfl

namespace Library.Context

variable {c : Context}

/-- The target compiles the namespace of the declaration. It depends on the library and on what the
declaration depends on, unless an override has more to say about that. -/
structure Compiles (c : Context) (library : String) (d : Declaration) (t : Target) : Prop where
  kind : t.kind = .compiledModule
  name : c.KeepsNames → t.name = .ok (Label.compiled library d.name)
  deps : ∃ needed,
    (c.index.libraryLabelTables c.settings.repositoryTag).dependencies d = .ok needed ∧
      ("deps" ∉ (c.overridesAt (Label.compiled library d.name)).keys →
        t.attributes.get? "deps" = some (.texts (Text.sortedOnce
          (Label.qualify c.settings.repositoryTag (Label.munge library) :: needed))))

theorem compiles_of_moduleTarget {library : String} {d : Declaration} {t : Target}
    (h : c.moduleTarget library d = .ok t) : c.Compiles library d t := by
  obtain ⟨needed, hneeded, hfinished⟩ := Except.bind_eq_ok h
  obtain ⟨hkind, hnormalize⟩ := finished_eq_ok hfinished
  refine ⟨hkind, fun hnames => name_of_moduleTarget hnames h, needed, hneeded, fun hplain => ?_⟩
  set own := Label.qualify c.settings.repositoryTag (Label.munge library)
  have hmerge : (Attributes.merge [
      [("name", .str (Label.compiled library d.name)), ("aot", .texts [d.name]),
        ("deps", .texts [own]), ("runtime_deps", .texts [])],
      [("deps", .texts needed)],
      c.overridesAt (Label.compiled library d.name)]).get? "deps" =
        some (.texts (own :: needed)) :=
    Attributes.get?_lay_of_not_mem hplain
  obtain ⟨value, hvalue, hget⟩ := Attributes.get?_normalizeAll_of_mem (by decide) hnormalize
    (by decide) hmerge
  rw [Attributes.normalizedLabels_texts] at hvalue
  rw [hget, Except.ok.inj hvalue]

/-- The targets of a library are its import and one for each declaration that is used. Of the
declarations of a namespace that is compiled the first one in the archive is used, and no other. -/
def UsesFirst (c : Context) (s : ScannedLibrary) (ts : List Target) : Prop :=
  ∃ imported used modules, ts = imported :: modules ∧ imported.kind = .archiveImport ∧
    List.Forall₂ (c.Compiles s.library) used modules ∧
    ∀ ns, used.filter (fun d => d.name == ns) =
      if c.index.compiles ns then (s.contents.declarations.find? fun d => d.name == ns).toList
      else []

theorem usesFirst_of_targetsOf {s : ScannedLibrary} {ts : List Target}
    (h : (c.targetsOf s).Yields ts) : c.UsesFirst s ts := by
  obtain ⟨imported, himported, hrest⟩ := h.bind
  obtain ⟨modules, hmodules, hpure⟩ := hrest.bind
  refine ⟨imported, _, modules, hpure.pure, (finished_eq_ok (finished_of_importTarget himported)).1,
    (Except.forall₂_of_mapM hmodules.of).imp fun _ _ => compiles_of_moduleTarget, fun ns => ?_⟩
  rw [List.filter_comm, filter_firstDeclarations]
  -- what is left has the name, so it is compiled or not as the namespace is
  have hname : ∀ d ∈ (s.contents.declarations.find? fun d => d.name == ns).toList,
      c.index.compiles d.name = c.index.compiles ns := by
    intro d hd
    rw [Option.mem_toList] at hd
    have hnamed : d.name = ns := by simpa using List.find?_some hd
    rw [hnamed]
  rw [List.filter_congr hname]
  split <;> simp [*]

/-- It does not matter that the archives are opened anew when the targets are made. -/
theorem yields_of_makes {mid : Session} {targets : List Target}
    (hknown : ∀ s ∈ c.index.scanned, mid.archives.get? s.archive = some s.contents)
    (h : c.Makes mid targets) : c.targets.Yields targets := by
  rcases h with htargets | ⟨after, last, hafter, hrescanned⟩
  · exact htargets
  · rw [Run.Yields, rescannedTargets_eq fun s hs => hafter _ _ (hknown s hs)] at hrescanned
    exact (Run.Yields.reading hrescanned).1

end Library.Context

/-! ## An index -/

/-- How an index, and the targets that are made from it in the session or later, settle what the
archives of a classpath declare more than once. -/
structure Index.SettlesCollisions (i : Index) (b : Basis) (named : List String)
    (before mid : Session) : Prop where
  /-- the archives are gone through in the order of the classpath -/
  order : i.scanned.map (fun s => (s.archive, s.library)) = b.libraries
  /-- what they declare is what is in them, as far as the session knew nothing wrong -/
  contents : before.IsTrue → ∀ s ∈ i.scanned,
    (Archive.Contents.ofFile before.tree s.archive).Yields s.contents
  namespaces : ∀ ns, ns ∈ i.libraryTargets.keys ↔ ∃ s ∈ i.scanned, s.Declares ns
  /-- the last archive that declares a namespace has it -/
  lastNamespace : ∀ ns name, i.libraryTargets.get? ns = some name ↔
    ∃ s, IsLastWith (fun s => s.Declares ns) i.scanned s ∧
      name = if ns ∈ neverCompiled ∨ ns ∈ named then Label.munge s.library
        else Label.compiled s.library ns
  classes : ∀ className, className ∈ i.classArchives.keys ↔
    ∃ s ∈ i.scanned, className ∈ s.contents.classes
  /-- the last archive that holds a class has it -/
  lastClass : ∀ className archive, i.classArchives.get? className = some archive ↔
    ∃ s, IsLastWith (fun s => className ∈ s.contents.classes) i.scanned s ∧ archive = s.archive
  /-- the targets of each library use first declarations only -/
  firsts : ∀ c : Library.Context, c.index = i → ∀ targets, c.Makes mid targets →
    ∃ lists, targets = lists.flatten ++ [c.allTarget] ∧ c.libraries.Perm i.scanned ∧
      List.Forall₂ c.UsesFirst c.libraries lists

section Index

variable {base : Path} {named : List String} {b : Basis} {i : Index} {before mid : Session}

/-- The name of the target that stands for a namespace of a library. -/
theorem targetName_of_index (h : (Run.index base named b).Yields before i mid)
    (library ns : String) : i.targetName library ns =
      if ns ∈ neverCompiled ∨ ns ∈ named then Label.munge library
      else Label.compiled library ns := by
  have hcompiles : i.compiles ns = true ↔ ns ∉ neverCompiled ∧ ns ∉ named := compiles_of_index h
  rw [Index.targetName]
  split
  · next hcompiled =>
    rw [if_neg (not_or.2 (hcompiles.1 hcompiled))]
  · next hnot =>
    rw [if_pos (by_contra fun hor => hnot (hcompiles.2 (not_or.1 hor)))]

/-- The archives of an index hold what is in them. -/
theorem contents_of_index (h : (Run.index base named b).Yields before i mid)
    (hbefore : before.IsTrue) : ∀ s ∈ i.scanned,
      (Archive.Contents.ofFile before.tree s.archive).Yields s.contents := by
  obtain ⟨claimed, mid', hclaimed, h⟩ := h.bind
  obtain ⟨scanned, mid'', hscanned, hbuild⟩ := h.bind
  have hscans := Run.forall₂_of_scanLibraries
    ((Run.KeepsTruth.logged _).of_yields hbefore hclaimed) hscanned
  rw [(Run.KeepsTree.logged _).of_yields hclaimed] at hscans
  rw [Run.scanned_of_build hbuild.reading.1]
  intro s hs
  obtain ⟨-, -, -, hcontents⟩ := exists_left_of_forall₂ hscans hs
  exact hcontents

/-- Every index that is built settles what is declared more than once: between archives the last one
wins, and inside an archive the first declaration. -/
theorem settlesCollisions_of_index (h : (Run.index base named b).Yields before i mid) :
    i.SettlesCollisions b named before mid where
  order := (isOf_of_index h).claims
  contents := contents_of_index h
  namespaces _ := Index.mem_keys_libraryTargets
  lastNamespace ns name := by simp only [Index.get?_libraryTargets, targetName_of_index h]
  classes _ := Index.mem_keys_classArchives
  lastClass _ _ := Index.get?_classArchives
  firsts := by
    rintro c rfl targets hmakes
    obtain ⟨lists, hlists, hpure⟩ :=
      (Library.Context.yields_of_makes (Run.known_of_index h) hmakes).bind
    exact ⟨lists, hpure.pure, List.mergeSort_perm _ _,
      hlists.mapM.imp fun _ _ => Library.Context.usesFirst_of_targetsOf⟩

end Index

/-! ## Two archives with the same in them -/

/-- A session that knows two archives, which declare one namespace three times and both hold one
class. -/
def overlappingSession : Session where
  tree := {}
  archives := [(.parse "/r/a.jar", ⟨[smallDeclaration "a.core" ["b.core"],
      smallDeclaration "a.core" []], ["a.A"]⟩),
    (.parse "/r/b.jar", ⟨[smallDeclaration "a.core" []], ["a.A"]⟩)]

/-- A classpath with both archives. -/
def overlappingBasis : Basis where
  classpath := [{ path := .parse "/r/a.jar", library := some "g/a" },
    { path := .parse "/r/b.jar", library := some "g/b" }]

/-- The second archive has the namespace and the class. -/
theorem settlesCollisions_of_overlapping : ∃ i mid,
    (Run.index (.parse "/w") [] overlappingBasis).Yields overlappingSession i mid ∧
      i.SettlesCollisions overlappingBasis [] overlappingSession mid ∧
      (∃ s, IsLastWith (fun s => s.Declares "a.core") i.scanned s ∧
        "ns_g_b_a_core" = Label.compiled s.library "a.core") ∧
      ∃ s, IsLastWith (fun s => "a.A" ∈ s.contents.classes) i.scanned s ∧
        .parse "/r/b.jar" = s.archive := by
  obtain ⟨i, mid, hindex, hholds⟩ := Run.exists_yields
    (Run.index (.parse "/w") [] overlappingBasis) overlappingSession
    (fun i => i.libraryTargets.get? "a.core" == some "ns_g_b_a_core" &&
      i.classArchives.get? "a.A" == some (.parse "/r/b.jar"))
    (by decide +kernel)
  rw [Bool.and_eq_true, beq_iff_eq, beq_iff_eq] at hholds
  have hsettles := settlesCollisions_of_index hindex
  have hlast := (hsettles.lastNamespace _ _).1 hholds.1
  simp only [neverCompiled, List.not_mem_nil, or_false] at hlast
  exact ⟨i, mid, hindex, hsettles, by simpa using hlast, (hsettles.lastClass _ _).1 hholds.2⟩

end BuildFiles
