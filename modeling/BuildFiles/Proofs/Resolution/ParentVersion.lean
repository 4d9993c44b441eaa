import BuildFiles.Proofs.Resolution.Expansion
import BuildFiles.Proofs.Resolution.Inheritance

/-!
# The version of the parent

A description may refer to the version of its parent. The property for that is inherited like any
other, and a description adds it only while it is new: so it is the version of the parent that is
named highest up in the chain of descriptions (`Repository.exists_parentVersion_of_lineage`), which
is that of the parent itself only if the parent names none of its own, or one of the same version.
-/

namespace BuildFiles

namespace Pom

variable {c : Coordinate} {root : Xml.Element} {inherited : Pom}

/-- The property is what the description defines it as, or what is inherited, or the version of the
parent. -/
theorem get?_parentVersion_ofElement :
    (ofElement c inherited root).properties.get? parentVersion =
      (Entries.get? (definedProperties root).reverse parentVersion).or
        ((inherited.properties.get? parentVersion).or ((parent? root).map Coordinate.version)) := by
  have hown : Entries.get? (ownProperties c).reverse parentVersion = none := by
    rw [Entries.get?_eq_none_iff]
    intro hmem
    simp [ownProperties, Entries.keys, parentVersion] at hmem
  have hinherited : (inheritedProperties (parent? root) inherited).get? parentVersion =
      (inherited.properties.get? parentVersion).or ((parent? root).map Coordinate.version) := by
    cases parent? root with
    | none => exact (Option.or_none).symm
    | some p => rw [inheritedProperties, Entries.get?_insertNew, if_pos (beq_self_eq_true _)]; rfl
  rw [ofElement]
  dsimp only
  rw [Entries.get?_insertAll, Entries.get?_insertAll, hown, Option.none_or, hinherited]

/-- A dependency has the value of the property that it refers to for its version, or that the
version refers to that is managed for it. -/
theorem dependency_of_reference {pom : Pom} {name value : String} {m : Mention} (hname : name ≠ "")
    (hbrace : '}' ∉ name.toList) (h : pom.properties.get? name = some value) (hvalue : value ≠ "")
    (hplain : pom.properties.substitute value.toList = value.toList)
    (hm : m.version = Properties.reference name ∨ pom.properties.expand m.version = "" ∧
      pom.managed.get? (libraryOf pom.properties m) = some (Properties.reference name)) :
    pom.dependency c m = .ok ⟨libraryOf pom.properties m, value, m.exclusions⟩ := by
  have hexpand := Properties.expand_reference hname hbrace h hplain
  have hversion : pom.versionOf m = value := by
    rcases hm with hown | ⟨hempty, hmanaged⟩
    · have hown : pom.properties.expand m.version = value := by rw [hown, hexpand]
      rw [versionOf_of_own (hown ▸ hvalue), hown, Properties.expand_of_substitute hplain]
    · rw [versionOf_of_managed hempty, hmanaged, Option.getD_some, hexpand]
  rw [dependency, hversion, if_neg (mt String.isEmpty_iff.1 hvalue)]

end Pom

namespace Repository

variable {r : Repository} {c : Coordinate} {root : Xml.Element}
  {chain ancestors : List (Coordinate × Xml.Element)}

/-- What the files tell of the version of the parent: the nearest description that defines it says
what it is, and if there is none the one that names a parent highest up. -/
theorem Lineage.exists_told_parentVersion (h : r.Lineage c chain) : ∃ pom?, r.told c = .ok pom? ∧
    (pom?.getD {}).properties.get? Pom.parentVersion =
      (chain.findSome? fun x => Entries.get? (Pom.definedProperties x.2).reverse
        Pom.parentVersion).or
        (chain.reverse.findSome? fun x => (Pom.parent? x.2).map Coordinate.version) := by
  have hends := h.ends
  induction h with
  | missing hfile => exact ⟨none, told_of_missing hends hfile, rfl⟩
  | @alone c root hfile hparent =>
    refine ⟨_, told_of_alone hends hfile hparent, ?_⟩
    rw [Option.getD_some, Pom.get?_parentVersion_ofElement, hparent]
    cases h : Entries.get? (Pom.definedProperties root).reverse Pom.parentVersion
    · simp [hparent, h]
    · simp [h]
  | @child c p root ancestors hfile hparent hancestors ih =>
    obtain ⟨inherited, hp, hversion⟩ := ih hancestors.ends
    have htold : r.told c = .ok (some (Pom.ofElement c (inherited.getD {}) root)) := by
      rw [told_of_parent hends hfile hparent, hp]
      rfl
    refine ⟨_, htold, ?_⟩
    -- what is inherited comes before the version of the parent, so the own one is asked last
    rw [Option.getD_some, Pom.get?_parentVersion_ofElement, hversion, List.findSome?_cons,
      List.reverse_cons, List.findSome?_append, Option.or_assoc]
    cases Entries.get? (Pom.definedProperties root).reverse Pom.parentVersion
    · simp
    · simp

/-- The version of the parent that a description is read to have where no description of the chain
defines it: it is that of the parent which is named highest up in the chain. So it is that of its
own parent where this one names none, and a dependency whose version refers to it has that one. -/
theorem exists_parentVersion_of_lineage (h : r.Lineage c ((c, root) :: ancestors))
    (hundefined : ∀ x ∈ (c, root) :: ancestors, ∀ value,
      ¬ Pom.Defines x.2 Pom.parentVersion value) : ∃ pom,
    r.Settles (r.pom? c) (.ok (some pom)) ∧
      (∀ value, pom.properties.get? Pom.parentVersion = some value ↔ ∃ x p,
        IsLastWith (fun x => Pom.parent? x.2 ≠ none) ((c, root) :: ancestors) x ∧
          Pom.parent? x.2 = some p ∧ p.version = value) ∧
      (∀ p, Pom.parent? root = some p → (∀ x ∈ ancestors, Pom.parent? x.2 = none) →
        pom.properties.get? Pom.parentVersion = some p.version) ∧
      ∀ value, pom.properties.get? Pom.parentVersion = some value → value ≠ "" →
        pom.properties.substitute value.toList = value.toList → ∀ m : Mention,
          (m.version = Properties.reference Pom.parentVersion ∨
            pom.properties.expand m.version = "" ∧ pom.managed.get?
              (Pom.libraryOf pom.properties m) = some (Properties.reference Pom.parentVersion)) →
          pom.dependency c m = .ok ⟨Pom.libraryOf pom.properties m, value, m.exclusions⟩ := by
  obtain ⟨inherited, htold⟩ := h.exists_ofElement
  obtain ⟨pom?, htold', hversion⟩ := h.exists_told_parentVersion
  obtain rfl : some (Pom.ofElement c inherited root) = pom? :=
    Except.ok.inj (htold.symm.trans htold')
  have hnone : (((c, root) :: ancestors).findSome? fun x =>
      Entries.get? (Pom.definedProperties x.2).reverse Pom.parentVersion) = none := by
    refine List.findSome?_eq_none_iff.2 fun x hx => ?_
    rw [Option.eq_none_iff_forall_ne_some]
    exact fun value hvalue => hundefined x hx value (Entries.get?_reverse_eq_some.1 hvalue)
  rw [Option.getD_some, hnone, Option.none_or] at hversion
  have htopmost : ∀ value,
      (Pom.ofElement c inherited root).properties.get? Pom.parentVersion = some value ↔ ∃ x p,
        IsLastWith (fun x => Pom.parent? x.2 ≠ none) ((c, root) :: ancestors) x ∧
          Pom.parent? x.2 = some p ∧ p.version = value := by
    intro value
    rw [hversion, findSome?_eq_some_iff_isFirstWith]
    simp only [isFirstWith_reverse, ne_eq, Option.map_eq_none_iff, Option.map_eq_some_iff,
      exists_and_left]
  refine ⟨_, (settles_pom?_iff h.ends).2 htold, htopmost, ?_, ?_⟩
  · intro p hp hancestors
    refine (htopmost _).2 ⟨(c, root), p, ⟨[], ancestors, rfl, by simp [hp], ?_⟩, hp, rfl⟩
    exact fun x hx hparent => hparent (hancestors x hx)
  · intro value hget hvalue hplain m hm
    exact Pom.dependency_of_reference (by decide) (by decide) hget hvalue hplain hm

/-- What describes a library whose parent has a version that the parent of the parent has not. -/
def heirText : String :=
  "<a><parent><groupId>g</groupId><artifactId>p</artifactId><version>2</version></parent></a>"

/-- What describes the parent. -/
def bequestText : String :=
  "<a><parent><groupId>g</groupId><artifactId>q</artifactId><version>3</version></parent></a>"

/-- A repository with both, where the parent of the parent has no description. -/
def generations : Repository where
  tree.files := [(["r", "g", "a", "1", "a-1.pom"], heirText.toUTF8),
    (["r", "g", "p", "2", "p-2.pom"], bequestText.toUTF8)]
  path := .parse "/r"

/-- The chain of the example: the child names its parent in version 2, and the parent names its own
in version 3. Neither defines a property. -/
theorem exists_generations : ∃ heir parent,
    generations.Lineage ⟨"g", "a", "1"⟩
        [(⟨"g", "a", "1"⟩, heir), (⟨"g", "p", "2"⟩, parent)] ∧
      (Pom.parent? heir = some ⟨"g", "p", "2"⟩ ∧ Pom.definedProperties heir = []) ∧
      Pom.parent? parent = some ⟨"g", "q", "3"⟩ ∧ Pom.definedProperties parent = [] := by
  have hheirText : (Xml.parse? heirText).map plainly =
      some (true, some ⟨"g", "p", "2"⟩, []) := by decide +kernel
  have hparentText : (Xml.parse? bequestText).map plainly =
      some (true, some ⟨"g", "q", "3"⟩, []) := by decide +kernel
  obtain ⟨heir, hheir, hplain⟩ := Option.map_eq_some_iff.1 hheirText
  obtain ⟨parent, hparent, hplain'⟩ := Option.map_eq_some_iff.1 hparentText
  have hheir : generations.description? ⟨"g", "a", "1"⟩ = .ok (some heir) :=
    description?_eq_some.2 ⟨["r", "g", "a", "1", "a-1.pom"], by with_unfolding_all rfl,
      (rootAt?_of_text rfl (by decide +kernel)).trans hheir⟩
  have hparent : generations.description? ⟨"g", "p", "2"⟩ = .ok (some parent) :=
    description?_eq_some.2 ⟨["r", "g", "p", "2", "p-2.pom"], by with_unfolding_all rfl,
      (rootAt?_of_text rfl (by decide +kernel)).trans hparent⟩
  have hmissing : generations.description? ⟨"g", "q", "3"⟩ = .ok none := by
    with_unfolding_all rfl
  exact ⟨heir, parent, .child hheir (eq_of_plainly hplain).1
      (.child hparent (eq_of_plainly hplain').1 (.missing hmissing)),
    eq_of_plainly hplain, eq_of_plainly hplain'⟩

/-- The parent has another version than what is read as its version, and so has the dependency that
refers to it. -/
theorem exists_parentVersion_of_lineage_generations : ∃ heir parent pom,
    generations.Lineage ⟨"g", "a", "1"⟩
        [(⟨"g", "a", "1"⟩, heir), (⟨"g", "p", "2"⟩, parent)] ∧
      Pom.parent? heir = some ⟨"g", "p", "2"⟩ ∧
      generations.Settles (generations.pom? ⟨"g", "a", "1"⟩) (.ok (some pom)) ∧
      pom.properties.get? Pom.parentVersion = some "3" ∧
      pom.dependency ⟨"g", "a", "1"⟩
          ⟨"x", "y", "$\x7bproject.parent.version\x7d", "compile", false, "jar", "", []⟩ =
        .ok ⟨"x/y", "3", []⟩ := by
  obtain ⟨heir, parent, hlineage, ⟨hof, hown⟩, hgrand, htheirs⟩ := exists_generations
  have hundefined : ∀ x ∈ [(Coordinate.mk "g" "a" "1", heir), (.mk "g" "p" "2", parent)], ∀ value,
      ¬ Pom.Defines x.2 Pom.parentVersion value := by
    rintro x hx value ⟨before, after, hdefined, -⟩
    have hnone : Pom.definedProperties x.2 = [] := by
      rcases List.mem_pair.1 hx with rfl | rfl
      · exact hown
      · exact htheirs
    rw [hnone] at hdefined
    simp at hdefined
  obtain ⟨pom, hpom, htopmost, -, hdependency⟩ :=
    exists_parentVersion_of_lineage hlineage hundefined
  have hversion : pom.properties.get? Pom.parentVersion = some "3" :=
    (htopmost "3").2 ⟨(⟨"g", "p", "2"⟩, parent), ⟨"g", "q", "3"⟩,
      ⟨[_], [], rfl, by simp [hgrand], by simp⟩, hgrand, rfl⟩
  have hplain : ∀ s : String, '$' ∉ s.toList → pom.properties.expand s = s := fun s hs =>
    Properties.expand_of_substitute (Properties.substitute_of_not_mem hs)
  refine ⟨heir, parent, pom, hlineage, hof, hpom, hversion, ?_⟩
  have h := hdependency "3" hversion (by decide) (Properties.substitute_of_not_mem (by decide))
    ⟨"x", "y", "$\x7bproject.parent.version\x7d", "compile", false, "jar", "", []⟩ (.inl rfl)
  rw [Pom.libraryOf, hplain "x" (by decide), hplain "y" (by decide)] at h
  exact h

end Repository

end BuildFiles
