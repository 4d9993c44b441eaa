import BuildFiles.Proofs.Entries
import BuildFiles.Proofs.Resolution.Cache

/-!
# The nearest description wins

The description of a library inherits from that of its parent, and that one from the parent of the
parent. `Lineage` is such a chain of descriptions, with the library itself first. A property has the
value that the nearest description of the chain gives to it, and a library the version that the
nearest one manages for it, where each description reads its own texts with its own properties
(`Repository.Inherits`). Every chain that ends is read, whatever is known already:
`Repository.exists_inherits_of_lineage`.
-/

namespace BuildFiles

namespace Pom

variable {c : Coordinate} {root : Xml.Element} {inherited : Pom} {properties : Properties}
  {library name value version : String}

/-- The properties that a description has without defining them. -/
def givenNames : List String :=
  ["project.groupId", "project.artifactId", "project.version", "pom.version", parentVersion]

/-- The mentions in a description of libraries whose versions it manages. -/
def managing (root : Xml.Element) : List Mention :=
  let space := spaceOf root
  mentionsIn space (reached space root ["dependencyManagement", "dependencies"])

/-- The description defines the property with the value, after which it does not define it again. -/
def Defines (root : Xml.Element) (name value : String) : Prop :=
  IsLastWith (fun e => e.1 = name) (definedProperties root) (name, value)

/-- Of the versions that the description manages for the library, where names are read with the
properties, this is the last that is not empty. -/
def Manages (properties : Properties) (root : Xml.Element) (library version : String) : Prop :=
  ∃ m, IsLastWith (fun m => m.version ≠ "" ∧ libraryOf properties m = library) (managing root) m ∧
    m.version = version

theorem get?_inheritedProperties {parent : Option Coordinate} (hname : name ∉ givenNames) :
    (inheritedProperties parent inherited).get? name = inherited.properties.get? name := by
  cases parent with
  | none => rfl
  | some p =>
    have hne : parentVersion ≠ name := by
      rintro rfl
      exact hname (by decide)
    rw [inheritedProperties, Entries.get?_insertNew, if_neg (by simpa using hne), Option.or_none]

/-- What a description does not define itself it inherits. -/
theorem get?_properties_ofElement (hname : name ∉ givenNames) :
    (ofElement c inherited root).properties.get? name =
      (Entries.get? (definedProperties root).reverse name).or
        (inherited.properties.get? name) := by
  have hown : Entries.get? (ownProperties c).reverse name = none := by
    rw [Entries.get?_eq_none_iff]
    intro hmem
    refine hname ?_
    simp only [ownProperties, Entries.keys, List.reverse_cons, List.reverse_nil, List.nil_append,
      List.cons_append, List.map_cons, List.map_nil, List.mem_cons, List.not_mem_nil,
      or_false] at hmem
    simp only [givenNames, List.mem_cons]
    tauto
  rw [ofElement]
  dsimp only
  rw [Entries.get?_insertAll, Entries.get?_insertAll, hown, Option.none_or,
    get?_inheritedProperties hname]

/-- What is managed for a library is what the last mention of it manages. -/
theorem get?_managedBy_reverse :
    Entries.get? (managedBy properties (managing root)).reverse library = some version ↔
      Manages properties root library version := by
  have htest : (fun m : Mention => decide ((!m.version.isEmpty) = true ∧
        ((fun e : String × String => e.1 == library) ∘
          fun m : Mention => (libraryOf properties m, m.version)) m = true) = true) =
      fun m => m.version ≠ "" ∧ libraryOf properties m = library := by
    funext m
    simp
  rw [managedBy, ← List.map_reverse, ← List.filter_reverse, Entries.get?, List.find?_map,
    List.find?_filter, Option.map_map, Option.map_eq_some_iff]
  simp only [find?_eq_some_iff_isFirstWith, isFirstWith_reverse]
  rw [htest]
  rfl

/-- What a description does not manage itself it inherits. -/
theorem get?_managed_ofElement : (ofElement c inherited root).managed.get? library =
    (Entries.get? (managedBy (ofElement c inherited root).properties (managing root)).reverse
      library).or (inherited.managed.get? library) := by
  rw [ofElement]
  dsimp only
  rw [Entries.get?_insertAll]
  rfl

/-! ## Dependencies -/

/-- The dependency is what the mention comes to: its version is the one that the mention has of its
own, or else the one that is managed, and properties are replaced in it. -/
structure Answers (pom : Pom) (m : Mention) (d : Dependency) : Prop where
  library : d.library = libraryOf pom.properties m
  exclusions : d.exclusions = m.exclusions
  nonempty : d.version ≠ ""
  version :
    (pom.properties.expand m.version ≠ "" ∧
      d.version = pom.properties.expand (pom.properties.expand m.version)) ∨
    (pom.properties.expand m.version = "" ∧ ∃ managed,
      pom.managed.get? d.library = some managed ∧ d.version = pom.properties.expand managed)

theorem expand_empty (properties : Properties) : properties.expand "" = "" := by
  have hsubstitute : properties.substitute [] = [] := by rw [Properties.substitute]
  have hrounds : properties.rounds Properties.maxRounds [] = [] := by
    rw [Properties.maxRounds, Properties.rounds, hsubstitute, if_pos rfl]
  exact congrArg String.ofList hrounds

/-- The version of a mention is its own, and where that is empty the managed one. -/
theorem versionOf_of_own {pom : Pom} {m : Mention} (h : pom.properties.expand m.version ≠ "") :
    pom.versionOf m = pom.properties.expand (pom.properties.expand m.version) := by
  rw [versionOf, filled, if_neg (mt String.isEmpty_iff.1 h)]

theorem versionOf_of_managed {pom : Pom} {m : Mention} (h : pom.properties.expand m.version = "") :
    pom.versionOf m = pom.properties.expand
      ((pom.managed.get? (libraryOf pom.properties m)).getD "") := by
  rw [versionOf, filled, if_pos (String.isEmpty_iff.2 h)]

/-- A mention comes to a dependency exactly if there is a version for it. -/
theorem dependency_eq_ok {pom : Pom} {m : Mention} {d : Dependency} :
    pom.dependency c m = .ok d ↔ pom.Answers m d := by
  constructor
  · intro h
    rw [dependency] at h
    split at h
    · cases h
    · next hfilled =>
      obtain rfl := Except.ok.inj h
      rw [String.isEmpty_iff] at hfilled
      refine ⟨rfl, rfl, hfilled, ?_⟩
      by_cases hown : pom.properties.expand m.version = ""
      · rw [versionOf_of_managed hown] at hfilled ⊢
        cases hmanaged : pom.managed.get? (libraryOf pom.properties m) with
        | none =>
          -- there would be no version at all
          rw [hmanaged, Option.getD_none, expand_empty] at hfilled
          exact absurd rfl hfilled
        | some managed => exact .inr ⟨hown, managed, rfl, rfl⟩
      · exact .inl ⟨hown, versionOf_of_own hown⟩
  · rintro ⟨hlibrary, hexclusions, hnonempty, hversion⟩
    have hof : pom.versionOf m = d.version := by
      rcases hversion with ⟨hown, hversion⟩ | ⟨hown, managed, hmanaged, hversion⟩
      · rw [versionOf_of_own hown, hversion]
      · rw [versionOf_of_managed hown, ← hlibrary, hmanaged, hversion, Option.getD_some]
    rw [dependency, hof, if_neg (mt String.isEmpty_iff.1 hnonempty), ← hlibrary, ← hexclusions]

/-- What the mentions come to, of which those that are passed over come to nothing. -/
theorem returns_mapM_follow {pom : Pom} {ms : List Mention} {ds : List Dependency}
    (h : List.Forall₂ pom.Answers (ms.filter isPlain) ds) :
    ∃ found, (ms.mapM (pom.follow c)).Returns found ∧ found.filterMap id = ds := by
  induction ms generalizing ds with
  | nil =>
    cases h
    exact ⟨[], .pure [], rfl⟩
  | cons m ms ih =>
    rw [List.mapM_cons]
    by_cases hplain : isPlain m = true
    · rw [List.filter_cons_of_pos hplain] at h
      obtain ⟨d, ds, hd, hds, rfl⟩ := List.forall₂_cons_left_iff.1 h
      obtain ⟨found, hfound, rfl⟩ := ih hds
      have hm : (pom.follow c m).Returns (some d) := by
        rw [follow, if_pos hplain]
        exact (Logged.Returns.of (dependency_eq_ok.2 hd)).bind (.pure _)
      exact ⟨some d :: found, hm.bind (hfound.bind (.pure _)), rfl⟩
    · rw [List.filter_cons_of_neg hplain] at h
      obtain ⟨found, hfound, rfl⟩ := ih h
      have hm : (pom.follow c m).Returns none := by
        rw [follow, if_neg hplain]
        exact (Logged.Returns.say _).bind (.pure _)
      exact ⟨none :: found, hm.bind (hfound.bind (.pure _)), rfl⟩

/-- The dependencies that count are what the mentions come to that count and are of an archive of
the common kind, in their order. -/
theorem yields_followed_iff {pom : Pom} {ds : List Dependency} : (pom.followed c).Yields ds ↔
    List.Forall₂ pom.Answers ((pom.mentions.filter isFollowed).filter isPlain) ds := by
  constructor
  · intro h
    obtain ⟨found, hfound, hpure⟩ := h.bind
    have houtcomes : List.Forall₂ (fun m d => pom.outcome c m = .ok d)
        (pom.mentions.filter isFollowed) found := hfound.mapM.imp fun _ _ => outcome_of_follow
    rw [hpure.pure]
    -- the induction is over what the mentions come to, however they were found
    clear hpure hfound h
    generalize pom.mentions.filter isFollowed = ms at houtcomes
    induction houtcomes with
    | nil => exact .nil
    | @cons m d ms found hm _ ih =>
      rw [outcome] at hm
      split at hm
      · next hplain =>
        obtain ⟨d', hd', rfl⟩ := Except.map_eq_ok hm
        rw [List.filter_cons_of_pos hplain]
        exact .cons (dependency_eq_ok.1 hd') ih
      · next hplain =>
        obtain rfl := Except.ok.inj hm
        rw [List.filter_cons_of_neg hplain]
        exact ih
  · intro h
    obtain ⟨found, hfound, rfl⟩ := returns_mapM_follow h
    have hall : (pom.followed c).Returns (found.filterMap id) := hfound.bind (.pure _)
    exact hall.yields

end Pom

namespace Repository

variable {r : Repository} {c p : Coordinate} {root : Xml.Element}
  {chain : List (Coordinate × Xml.Element)}

/-- The descriptions of a library and of its parents, the nearest first. The chain ends with a
description that names no parent, or with a parent without a description. -/
inductive Lineage (r : Repository) : Coordinate → List (Coordinate × Xml.Element) → Prop
  | missing {c : Coordinate} (hfile : r.description? c = .ok none) : Lineage r c []
  | alone {c : Coordinate} {root : Xml.Element} (hfile : r.description? c = .ok (some root))
    (hparent : Pom.parent? root = none) : Lineage r c [(c, root)]
  | child {c p : Coordinate} {root : Xml.Element} {ancestors : List (Coordinate × Xml.Element)}
    (hfile : r.description? c = .ok (some root)) (hparent : Pom.parent? root = some p)
    (hancestors : Lineage r p ancestors) : Lineage r c ((c, root) :: ancestors)

/-! ## A chain ends -/

/-- There are no more parents than descriptions in the chain. -/
theorem Lineage.endsWithin (h : r.Lineage c chain) : r.EndsWithin (chain.length + 1) c := by
  induction h with
  | missing hfile =>
    intro p hp
    obtain ⟨root, hroot, -⟩ := isParent_iff.1 hp
    rw [hfile] at hroot
    cases hroot
  | alone hfile hparent =>
    intro p hp
    obtain ⟨root, hroot, hp⟩ := isParent_iff.1 hp
    obtain rfl := Option.some.inj (Except.ok.inj (hfile.symm.trans hroot))
    rw [hparent] at hp
    cases hp
  | child hfile hparent _ ih =>
    intro p hp
    obtain ⟨root, hroot, hp⟩ := isParent_iff.1 hp
    obtain rfl := Option.some.inj (Except.ok.inj (hfile.symm.trans hroot))
    obtain rfl := Option.some.inj (hparent.symm.trans hp)
    exact ih

theorem Lineage.ends (h : r.Lineage c chain) : r.Ends c := h.endsWithin.ends

/-! ## What is inherited -/

/-- The version that a description of a chain manages for a library, with the properties that its
own library has. -/
def Manages (r : Repository) (x : Coordinate × Xml.Element) (library version : String) : Prop :=
  ∃ own, r.Settles (r.pom? x.1) (.ok (some own)) ∧ Pom.Manages own.properties x.2 library version

/-- The description that a library has under the descriptions of its parents, of which the nearest
one comes first: the nearest one wins, and its own is nearer than all of them. -/
structure Inherits (r : Repository) (c : Coordinate) (root : Xml.Element)
    (ancestors : List (Coordinate × Xml.Element)) (pom : Pom) : Prop where
  /-- a property has the value that the nearest description gives to it that defines it -/
  properties : ∀ name ∉ Pom.givenNames, ∀ value, pom.properties.get? name = some value ↔
    ∃ x, IsFirstWith (fun x => ∃ value, Pom.Defines x.2 name value) ((c, root) :: ancestors) x ∧
      Pom.Defines x.2 name value
  /-- a library has the version of the nearest description that manages one for it, where names are
  read with the properties of that description -/
  managed : ∀ library version, pom.managed.get? library = some version ↔
    ∃ x, IsFirstWith (fun x => ∃ version, r.Manages x library version) ((c, root) :: ancestors) x ∧
      r.Manages x library version
  /-- dependencies are not inherited -/
  mentions : pom.mentions = Pom.mentionsIn (Pom.spaceOf root)
    (root.named (Pom.spaceOf root) "dependencies")
  /-- a dependency that counts has its own version or else the managed one -/
  followed : ∀ ds, (pom.followed c).Yields ds ↔
    List.Forall₂ pom.Answers ((pom.mentions.filter Pom.isFollowed).filter Pom.isPlain) ds

/-- The version that a description of a chain manages for a library, by the files alone. -/
def managedAt (r : Repository) (library : String) (x : Coordinate × Xml.Element) : Option String :=
  (r.told x.1).toOption.join.bind fun own =>
    Entries.get? (Pom.managedBy own.properties (Pom.managing x.2)).reverse library

theorem Lineage.ends_of_mem (h : r.Lineage c chain) {x : Coordinate × Xml.Element}
    (hx : x ∈ chain) : r.Ends x.1 := by
  induction h with
  | missing => cases hx
  | alone hfile hparent =>
    obtain rfl := List.mem_singleton.1 hx
    exact (Lineage.alone hfile hparent).ends
  | child hfile hparent hancestors ih =>
    rcases List.mem_cons.1 hx with rfl | hx
    · exact (Lineage.child hfile hparent hancestors).ends
    · exact ih hx

theorem managedAt_eq_some {x : Coordinate × Xml.Element} (hx : r.Ends x.1)
    {library version : String} :
    r.managedAt library x = some version ↔ r.Manages x library version := by
  rw [managedAt, Manages, Option.bind_eq_some_iff]
  refine exists_congr fun own => and_congr ?_ Pom.get?_managedBy_reverse
  rw [Except.toOption_join_eq_some, settles_pom?_iff hx]

theorem managedAt_of_told {inherited : Pom}
    (h : r.told c = .ok (some (Pom.ofElement c inherited root))) (library : String) :
    (Pom.ofElement c inherited root).managed.get? library =
      (r.managedAt library (c, root)).or (inherited.managed.get? library) := by
  rw [Pom.get?_managed_ofElement, managedAt, h]
  rfl

/-- What the files tell of a library with a chain of descriptions: what is asked for is found in the
first of them that has it. The induction follows the chain. -/
theorem Lineage.exists_told (h : r.Lineage c chain) : ∃ pom?, r.told c = .ok pom? ∧
    (∀ name ∉ Pom.givenNames, (pom?.getD {}).properties.get? name =
      chain.findSome? fun x => Entries.get? (Pom.definedProperties x.2).reverse name) ∧
    ∀ library, (pom?.getD {}).managed.get? library = chain.findSome? (r.managedAt library) := by
  have hends := h.ends
  induction h with
  | missing hfile => exact ⟨none, told_of_missing hends hfile, fun _ _ => rfl, fun _ => rfl⟩
  | @alone c root hfile hparent =>
    have htold := told_of_alone hends hfile hparent
    refine ⟨_, htold, fun name hname => ?_, fun library => ?_⟩
    · rw [Option.getD_some, Pom.get?_properties_ofElement hname, List.findSome?_cons,
        List.findSome?_nil]
      cases Entries.get? (Pom.definedProperties root).reverse name <;> rfl
    · rw [Option.getD_some, managedAt_of_told htold, List.findSome?_cons, List.findSome?_nil]
      cases r.managedAt library (c, root) <;> rfl
  | @child c p root ancestors hfile hparent hancestors ih =>
    obtain ⟨inherited, hp, hproperties, hmanaged⟩ := ih hancestors.ends
    have htold : r.told c = .ok (some (Pom.ofElement c (inherited.getD {}) root)) := by
      rw [told_of_parent hends hfile hparent, hp]
      rfl
    refine ⟨_, htold, fun name hname => ?_, fun library => ?_⟩
    · rw [Option.getD_some, Pom.get?_properties_ofElement hname, hproperties name hname,
        List.findSome?_cons]
      cases Entries.get? (Pom.definedProperties root).reverse name <;> rfl
    · rw [Option.getD_some, managedAt_of_told htold, hmanaged, List.findSome?_cons]
      cases r.managedAt library (c, root) <;> rfl

theorem Lineage.exists_ofElement {ancestors : List (Coordinate × Xml.Element)}
    (h : r.Lineage c ((c, root) :: ancestors)) :
    ∃ inherited, r.told c = .ok (some (Pom.ofElement c inherited root)) := by
  cases h with
  | alone hfile hparent =>
    exact ⟨_, told_of_alone (Lineage.alone hfile hparent).ends hfile hparent⟩
  | child hfile hparent hancestors =>
    obtain ⟨inherited, hp, -⟩ := hancestors.exists_told
    refine ⟨inherited.getD {}, ?_⟩
    rw [told_of_parent (Lineage.child hfile hparent hancestors).ends hfile hparent, hp]
    rfl

/-- A chain of descriptions, however long, is read to the description that its library inherits. -/
theorem exists_inherits_of_lineage {ancestors : List (Coordinate × Xml.Element)}
    (h : r.Lineage c ((c, root) :: ancestors)) : ∃ pom,
      r.Settles (r.pom? c) (.ok (some pom)) ∧ r.Inherits c root ancestors pom := by
  obtain ⟨inherited, htold⟩ := h.exists_ofElement
  obtain ⟨pom?, htold', hproperties, hmanaged⟩ := h.exists_told
  obtain rfl : some (Pom.ofElement c inherited root) = pom? :=
    Except.ok.inj (htold.symm.trans htold')
  rw [Option.getD_some] at hproperties hmanaged
  refine ⟨_, (settles_pom?_iff h.ends).2 htold, ?_, ?_, rfl, fun ds => Pom.yields_followed_iff⟩
  · intro name hname value
    rw [hproperties name hname]
    exact findSome?_eq_some_iff_of fun x _ value => Entries.get?_reverse_eq_some
  · intro library version
    rw [hmanaged library]
    exact findSome?_eq_some_iff_of fun x hx version => managedAt_eq_some (h.ends_of_mem hx)

/-- A library has the value of a property that its own description gives to it, and otherwise that
of its parent. -/
theorem exists_inherits_of_lineage_family : ∃ root ancestors pom,
    family.Lineage ⟨"g", "a", "1"⟩ ((⟨"g", "a", "1"⟩, root) :: ancestors) ∧
      family.Inherits ⟨"g", "a", "1"⟩ root ancestors pom ∧
      family.Settles (family.pom? ⟨"g", "a", "1"⟩) (.ok (some pom)) ∧
      pom.properties.get? "v" = some "2" ∧ pom.properties.get? "w" = some "3" := by
  obtain ⟨child, parent, hchild, hparent, ⟨hof, hown⟩, hnone, htheirs⟩ := exists_family
  have hlineage : family.Lineage ⟨"g", "a", "1"⟩
      [(⟨"g", "a", "1"⟩, child), (⟨"g", "p", "1"⟩, parent)] :=
    .child (description?_eq_some.2 ⟨_, locate_family.1, hchild⟩) hof
      (.alone (description?_eq_some.2 ⟨_, locate_family.2, hparent⟩) hnone)
  obtain ⟨pom, hpom, hinherits⟩ := exists_inherits_of_lineage hlineage
  have hv : Pom.Defines child "v" "2" := by
    rw [Pom.Defines, hown]
    exact ⟨[], [], rfl, rfl, by simp⟩
  have hw : Pom.Defines parent "w" "3" := by
    rw [Pom.Defines, htheirs]
    exact ⟨[("v", "1")], [], rfl, rfl, by simp⟩
  have hnot : ∀ value, ¬ Pom.Defines child "w" value := by
    rintro value ⟨before, after, hl, -⟩
    rw [hown] at hl
    have hmem : ("w", value) ∈ [("v", "2")] := hl ▸ by simp
    simp at hmem
  refine ⟨child, _, pom, hlineage, hinherits, hpom, ?_, ?_⟩
  · exact (hinherits.properties "v" (by decide) "2").2
      ⟨_, ⟨[], _, rfl, ⟨"2", hv⟩, by simp⟩, hv⟩
  · exact (hinherits.properties "w" (by decide) "3").2
      ⟨(⟨"g", "p", "1"⟩, parent), ⟨[_], [], rfl, ⟨"3", hw⟩, by simpa using hnot⟩, hw⟩

end Repository

end BuildFiles
