import BuildFiles.Proofs.Resolution.ParentVersion

/-!
# Names of exclusions

A description names the library of a dependency by a group and an artifact that may refer to
properties, and these are expanded. The libraries that are not to be taken in by way of it are named
the same way, but they are kept as they are written (`ReadsExclusions.written`). So an exclusion is
of the library that a dependency written alike is of where nothing in it refers to a property, and,
as soon as all references lead to a property, only there (`ReadsExclusions.expanded_iff`).
-/

namespace BuildFiles.Pom

variable {c : Coordinate} {inherited : Pom} {root e : Xml.Element} {properties : Properties}
  {space : Option String}

/-- The library that an element names as it is written. -/
def writtenName (space : Option String) (e : Xml.Element) : String :=
  textOf space e "groupId" ++ "/" ++ textOf space e "artifactId"

/-- The library that an element names when properties are expanded. -/
def expandedName (properties : Properties) (space : Option String) (e : Xml.Element) : String :=
  properties.expand (textOf space e "groupId") ++ "/" ++
    properties.expand (textOf space e "artifactId")

/-- Neither the group nor the artifact that an element names refers to a property. -/
def IsPlainlyNamed (properties : Properties) (space : Option String) (e : Xml.Element) : Prop :=
  ∀ base ∈ ["groupId", "artifactId"],
    properties.substitute (textOf space e base).toList = (textOf space e base).toList

theorem IsPlainlyNamed.expandedName_eq (h : IsPlainlyNamed properties space e) :
    expandedName properties space e = writtenName space e := by
  rw [expandedName, writtenName, Properties.expand_of_substitute (h "groupId" (by simp)),
    Properties.expand_of_substitute (h "artifactId" (by simp))]

theorem isPlainlyNamed_of_not_mem (h : '$' ∉ (writtenName space e).toList) :
    IsPlainlyNamed properties space e := by
  simp only [writtenName, String.toList_append, List.mem_append, not_or] at h
  intro base hbase
  refine Properties.substitute_of_not_mem ?_
  rcases List.mem_pair.1 hbase with rfl | rfl
  · exact h.1.1
  · exact h.2

/-- The elements of a dependency that name a library that is not to be taken in. -/
def exclusionsIn (space : Option String) (e : Xml.Element) : List Xml.Element :=
  (reached space e ["exclusions", "exclusion"]).filter fun x =>
    textOf space x "groupId" ≠ "" ∧ textOf space x "artifactId" ≠ ""

/-- The elements of the dependencies that count. -/
def followedElements (root : Xml.Element) : List Xml.Element :=
  let space := spaceOf root
  (((root.named space "dependencies").head?.map (·.named space "dependency")).getD []).filter
    fun e => isFollowed (mention space e) && isPlain (mention space e)

/-- How a dependency names libraries: its own with properties expanded, and those that are not to be
taken in by way of it as they are written. -/
structure ReadsExclusions (properties : Properties) (space : Option String) (e : Xml.Element)
    (d : Dependency) : Prop where
  library : d.library = expandedName properties space e
  written : ∀ l, l ∈ d.exclusions ↔ ∃ x ∈ exclusionsIn space e, writtenName space x = l
  /-- where no name refers to a property, the names are the expanded ones -/
  expanded_of_plain : (∀ x ∈ exclusionsIn space e, IsPlainlyNamed properties space x) →
    ∀ l, l ∈ d.exclusions ↔ ∃ x ∈ exclusionsIn space e, expandedName properties space x = l
  /-- where no reference is left over when properties are expanded, they are so only if there is
  none to begin with -/
  expanded_iff :
    (∀ x ∈ exclusionsIn space e, '$' ∉ (expandedName properties space x).toList) →
    ((∀ l, l ∈ d.exclusions ↔ ∃ x ∈ exclusionsIn space e, expandedName properties space x = l) ↔
      ∀ x ∈ exclusionsIn space e, '$' ∉ (writtenName space x).toList)

theorem mem_exclusions_mention {l : String} : l ∈ (mention space e).exclusions ↔
    ∃ x ∈ exclusionsIn space e, writtenName space x = l := by
  simp only [mention, exclusionsIn, List.mem_filterMap, List.mem_filter, decide_eq_true_eq]
  refine exists_congr fun x => ?_
  rw [excluded?, and_assoc]
  refine and_congr_right fun _ => ?_
  by_cases hgroup : textOf space x "groupId" = ""
  · simp [hgroup]
  · by_cases hartifact : textOf space x "artifactId" = ""
    · simp [hartifact]
    · simp [hgroup, hartifact, writtenName]

theorem readsExclusions_of_written {d : Dependency}
    (hlibrary : d.library = expandedName properties space e)
    (hwritten : ∀ l, l ∈ d.exclusions ↔ ∃ x ∈ exclusionsIn space e, writtenName space x = l) :
    ReadsExclusions properties space e d := by
  have hplain : (∀ x ∈ exclusionsIn space e, IsPlainlyNamed properties space x) →
      ∀ l, l ∈ d.exclusions ↔ ∃ x ∈ exclusionsIn space e, expandedName properties space x = l := by
    intro hplain l
    rw [hwritten l]
    exact exists_congr fun x => and_congr_right fun hx => by rw [(hplain x hx).expandedName_eq]
  refine ⟨hlibrary, hwritten, hplain, fun hresolved => ⟨fun hexpanded x hx => ?_, fun hnone => ?_⟩⟩
  · -- the written name is among the names, so it is one that was expanded
    obtain ⟨x', hx', hname⟩ := (hexpanded _).1 ((hwritten _).2 ⟨x, hx, rfl⟩)
    exact hname ▸ hresolved x' hx'
  · exact hplain fun x hx => isPlainlyNamed_of_not_mem (hnone x hx)

theorem mentionsIn_eq_map (es : List Xml.Element) : mentionsIn space es =
    ((es.head?.map (·.named space "dependency")).getD []).map (mention space) := by
  rw [mentionsIn]
  cases es.head? <;> rfl

theorem filter_mentions_ofElement :
    ((ofElement c inherited root).mentions.filter isFollowed).filter isPlain =
      (followedElements root).map (mention (spaceOf root)) := by
  have hmentions : (ofElement c inherited root).mentions =
      mentionsIn (spaceOf root) (root.named (spaceOf root) "dependencies") := rfl
  rw [hmentions, mentionsIn_eq_map, List.filter_filter, List.filter_map, followedElements]
  refine congrArg (List.map _) (List.filter_congr fun e _ => ?_)
  exact Bool.and_comm _ _

/-- Each dependency that counts names its own library with properties expanded, but the libraries
that are not to be taken in by way of it as they are written. -/
theorem readsExclusions_of_followed {ds : List Dependency}
    (h : ((ofElement c inherited root).followed c).Yields ds) :
    List.Forall₂ (ReadsExclusions (ofElement c inherited root).properties (spaceOf root))
      (followedElements root) ds := by
  rw [yields_followed_iff, filter_mentions_ofElement, List.forall₂_map_left_iff] at h
  refine h.imp fun e d hd => readsExclusions_of_written hd.library fun l => ?_
  rw [hd.exclusions, mem_exclusions_mention]

/-! ## A group that is a property -/

/-- An element without a name space. -/
def plainElement (base text : String) (children : List Xml.Element) : Xml.Element :=
  .node ⟨"", base⟩ text children

/-- The elements that name a library whose group is the property. -/
def barredName : List Xml.Element :=
  [plainElement "groupId" (Properties.reference "x") [], plainElement "artifactId" "c" []]

/-- What describes a library with two dependencies: a library is not to be taken in by way of the
first one, and the second one names it alike. -/
def barring : Xml.Element :=
  plainElement "project" "" [
    plainElement "properties" "" [plainElement "x" "h" []],
    plainElement "dependencies" "" [
      plainElement "dependency" "" [plainElement "groupId" "b" [], plainElement "artifactId" "b" [],
        plainElement "version" "1" [],
        plainElement "exclusions" "" [plainElement "exclusion" "" barredName]],
      plainElement "dependency" "" (barredName ++ [plainElement "version" "1" []])]]

theorem spaceOf_barring : spaceOf barring = some "" := by
  rw [spaceOf, barring, plainElement]
  simp [Xml.Element.name]

theorem mentions_barring : ((ofElement c inherited barring).mentions.filter isFollowed).filter
    isPlain = [⟨"b", "b", "1", "compile", false, "jar", "", ["$\x7bx\x7d/c"]⟩,
      ⟨Properties.reference "x", "c", "1", "compile", false, "jar", "", []⟩] := by
  have hmentions : (ofElement c inherited barring).mentions =
      mentionsIn (spaceOf barring) (barring.named (spaceOf barring) "dependencies") := rfl
  rw [hmentions, spaceOf_barring]
  with_unfolding_all rfl

theorem get?_properties_barring :
    (ofElement c inherited barring).properties.get? "x" = some "h" := by
  have hdefined : definedProperties barring = [("x", "h")] := by
    rw [definedProperties, spaceOf_barring]
    with_unfolding_all rfl
  rw [get?_properties_ofElement (by decide), hdefined]
  rfl

/-- The dependencies of the example: the name of a library is expanded, and that of an exclusion is
not. -/
theorem yields_followed_barring :
    ((ofElement ⟨"g", "a", "1"⟩ {} barring).followed ⟨"g", "a", "1"⟩).Yields
      [⟨"b/b", "1", ["$\x7bx\x7d/c"]⟩, ⟨"h/c", "1", []⟩] := by
  have hx := @get?_properties_barring ⟨"g", "a", "1"⟩ {}
  rw [yields_followed_iff, mentions_barring]
  generalize ofElement ⟨"g", "a", "1"⟩ {} barring = p at hx
  have hplain : ∀ s : String, '$' ∉ s.toList → p.properties.expand s = s :=
    fun s hs => Properties.expand_of_substitute (Properties.substitute_of_not_mem hs)
  have hgroup : p.properties.expand (Properties.reference "x") = "h" :=
    Properties.expand_reference (by decide) (by decide) hx
      (Properties.substitute_of_not_mem (by decide))
  have hfirst : libraryOf p.properties
      ⟨"b", "b", "1", "compile", false, "jar", "", ["$\x7bx\x7d/c"]⟩ = "b/b" := by
    rw [libraryOf, hplain "b" (by decide)]
    decide
  have hsecond : libraryOf p.properties
      ⟨Properties.reference "x", "c", "1", "compile", false, "jar", "", []⟩ = "h/c" := by
    rw [libraryOf, hgroup, hplain "c" (by decide)]
    decide
  have hanswers : ∀ m : Mention, m.version = "1" →
      p.Answers m ⟨libraryOf p.properties m, "1", m.exclusions⟩ := by
    intro m hm
    have hone : p.properties.expand m.version = "1" := by rw [hm, hplain "1" (by decide)]
    exact ⟨rfl, rfl, by simp, .inl ⟨by simp [hone], by rw [hone, hplain "1" (by decide)]⟩⟩
  rw [← hfirst, ← hsecond]
  exact .cons (hanswers _ rfl) (.cons (hanswers _ rfl) .nil)

/-- The exclusion is not of the library that the second dependency is of. -/
theorem readsExclusions_of_followed_barring :
    ((ofElement ⟨"g", "a", "1"⟩ {} barring).followed ⟨"g", "a", "1"⟩).Yields
        [⟨"b/b", "1", ["$\x7bx\x7d/c"]⟩, ⟨"h/c", "1", []⟩] ∧
      List.Forall₂ (ReadsExclusions (ofElement ⟨"g", "a", "1"⟩ {} barring).properties
        (spaceOf barring)) (followedElements barring)
        [⟨"b/b", "1", ["$\x7bx\x7d/c"]⟩, ⟨"h/c", "1", []⟩] :=
  ⟨yields_followed_barring, readsExclusions_of_followed yields_followed_barring⟩

end BuildFiles.Pom
