import BuildFiles.Resolution.BasisFile
import BuildFiles.Proofs.Manifest.SourcePaths

/-!
# What a basis file comes to

A document whose parts have the shapes that they are to have is read as a basis, with one element of
the classpath and one record of the trace for each item (`IsBasisOf`). A part of another shape is a
fault of the resolution. But not all parts are looked at before they are used: what has no items
where some are to be gone through, and a path that no file system can hold, make faults of other
kinds. These are all that do so: `Escapes`, `ends_of_readText`.
-/

namespace BuildFiles

/-- The fault is that of a resolution. -/
def Fault.IsOfResolution : Fault → Prop
  | .resolution _ => True
  | _ => False

namespace Path

/-- A name on the path holds the null character, which no file system can. -/
def HoldsNull (p : Path) : Prop := ∃ n ∈ p.names, '\x00' ∈ n.toList

theorem ends_resolved (base p : Path) :
    Except.Ends (fun e => e = .file .nullCharacter ∧ (base.join p).HoldsNull)
      (fun q => q = base.settled p ∧ ¬ (base.join p).HoldsNull) (base.resolved p) := by
  have hbroken : (base.join p).names.any Tree.isBroken = true ↔ (base.join p).HoldsNull := by
    simp [HoldsNull, Tree.isBroken]
  unfold resolved
  split_ifs with h
  · exact ⟨rfl, hbroken.1 h⟩
  · exact ⟨rfl, mt hbroken.2 h⟩

end Path

namespace Label

theorem contains_canonicalLibrary (name : String) :
    (canonicalLibrary name).toList.contains '/' = true := by
  unfold canonicalLibrary
  split_ifs with h
  · exact h
  · simp

/-- The name of a library stays as it is when it is made canonical again. -/
theorem canonicalLibrary_canonicalLibrary (name : String) :
    canonicalLibrary (canonicalLibrary name) = canonicalLibrary name :=
  if_pos (contains_canonicalLibrary name)

end Label

namespace BasisFile

variable {t : Tree} {file base : Path} {m : Manifest} {aliases : List String} {text name : String}
  {es : Entries Datum Datum} {d : Datum} {b : Basis} {e : Fault}

/-! ## What the parts describe -/

/-- The document has no such name, or something under it that can be gone through. -/
def IsListed (es : Entries Datum Datum) (name : String) : Prop :=
  ∀ d, field? es name = some d → d.members?.isSome = true

/-- The items under a name, none if the document has no such name. -/
def items (es : Entries Datum Datum) (name : String) : List Datum :=
  ((field? es name).bind Datum.members?).getD []

/-- The item describes the element of the classpath: a folder of sources if it names no library, and
else the archive of the library. -/
inductive IsEntryOf (base : Path) : Datum → ClasspathEntry → Prop
  | folder {es : Entries Datum Datum} {p : String} (hp : field? es "path" = some (.str p))
      (hpath : ¬ (base / p).HoldsNull)
      (hlib : field? es "lib" = none ∨ field? es "lib" = some .nil) :
      IsEntryOf base (.map es)
        { path := base.settled (.parse p)
          pathKey := some ((field? es "path_key").getD (.str Manifest.ownKey)).text }
  | archive {es : Entries Datum Datum} {p : String} {lib : Datum}
      (hp : field? es "path" = some (.str p)) (hpath : ¬ (base / p).HoldsNull)
      (hlib : field? es "lib" = some lib) (hne : lib ≠ .nil) :
      IsEntryOf base (.map es)
        { path := base.settled (.parse p), library := some (library lib) }

/-- The item describes the record of the trace. -/
inductive IsRecordOf : Datum → TraceRecord → Prop
  | intro {es : Entries Datum Datum} {lib : Datum} (hlib : field? es "lib" = some lib)
      (hpath : IsListed es "path") :
      IsRecordOf (.map es) ⟨(items es "path").map library, library lib,
        ((field? es "reason").getD (.str "new-dep")).text⟩

/-- The names in a document under which there are items. -/
def listNames : List String := ["classpath", "trace", "paths", "repos"]

/-- The document describes the basis for a manifest under aliases. -/
structure IsBasisOf (es : Entries Datum Datum) (m : Manifest) (aliases : List String) (b : Basis) :
    Prop where
  classpath : List.Forall₂ (IsEntryOf m.folder) (items es "classpath") b.classpath
  trace : List.Forall₂ IsRecordOf (items es "trace") b.trace
  listed : ∀ name ∈ listNames, IsListed es name
  sources : ∀ p ∈ (m.keyedPaths aliases).keys, ¬ (m.folder / p).HoldsNull

/-- All names of libraries in the basis are canonical. -/
structure IsCanonical (b : Basis) : Prop where
  classpath : ∀ e ∈ b.classpath, ∀ l ∈ e.library, Label.canonicalLibrary l = l
  trace : ∀ r ∈ b.trace, ∀ l ∈ r.library :: r.path, Label.canonicalLibrary l = l

/-- What makes a fault of another kind than those of the resolution. -/
inductive Escapes (es : Entries Datum Datum) (m : Manifest) (aliases : List String) : Fault → Prop
  | list {name : String} (hname : name ∈ listNames) (h : ¬ IsListed es name) :
      Escapes es m aliases .shapeless
  | record {record : Entries Datum Datum} {lib : Datum} (hmem : .map record ∈ items es "trace")
      (hlib : field? record "lib" = some lib) (h : ¬ IsListed record "path") :
      Escapes es m aliases .shapeless
  | entry {entry : Entries Datum Datum} {p : String} (hmem : .map entry ∈ items es "classpath")
      (hp : field? entry "path" = some (.str p)) (h : (m.folder / p).HoldsNull) :
      Escapes es m aliases (.file .nullCharacter)
  | source {p : String} (hmem : p ∈ (m.keyedPaths aliases).keys) (h : (m.folder / p).HoldsNull) :
      Escapes es m aliases (.file .nullCharacter)

theorem IsBasisOf.isCanonical (h : IsBasisOf es m aliases b) : IsCanonical b where
  classpath e he l hl := by
    obtain ⟨d, -, hd⟩ := exists_left_of_forall₂ h.classpath he
    cases hd with
    | folder => cases hl
    | archive =>
      cases hl
      exact Label.canonicalLibrary_canonicalLibrary _
  trace r hr l hl := by
    obtain ⟨d, -, ⟨hlib, hpath⟩⟩ := exists_left_of_forall₂ h.trace hr
    rcases List.mem_cons.1 hl with rfl | hl
    · exact Label.canonicalLibrary_canonicalLibrary _
    · obtain ⟨x, -, rfl⟩ := List.mem_map.1 hl
      exact Label.canonicalLibrary_canonicalLibrary _

/-- A document that describes a basis holds nothing that makes such a fault. -/
theorem IsBasisOf.not_escapes (h : IsBasisOf es m aliases b) : ¬ Escapes es m aliases e := by
  rintro (⟨hname, hlist⟩ | ⟨hmem, hlib, hlist⟩ | ⟨hmem, hp, hnull⟩ | ⟨hmem, hnull⟩)
  · exact hlist (h.listed _ hname)
  · obtain ⟨r, -, ⟨-, hpath⟩⟩ := exists_right_of_forall₂ h.trace hmem
    exact hlist hpath
  · obtain ⟨r, -, hr⟩ := exists_right_of_forall₂ h.classpath hmem
    cases hr with
    | folder hp' hpath =>
      obtain ⟨⟩ := hp.symm.trans hp'
      exact hpath hnull
    | archive hp' hpath =>
      obtain ⟨⟩ := hp.symm.trans hp'
      exact hpath hnull
  · exact h.sources _ hmem hnull

/-! ## How the parts are read -/

theorem ends_itemsAt (es : Entries Datum Datum) (name : String) :
    Except.Ends (fun e => e = .shapeless ∧ ¬ IsListed es name)
      (fun xs => xs.getD [] = items es name ∧ IsListed es name) (itemsAt es name) := by
  unfold itemsAt
  split
  · next hnone => exact ⟨by rw [items, hnone]; rfl, by rw [IsListed, hnone]; nofun⟩
  · next d hd =>
    split
    · next xs hxs =>
      refine ⟨by rw [items, hd, Option.bind_some, hxs], fun d' hd' => ?_⟩
      obtain rfl : d = d' := Option.some.inj (hd.symm.trans hd')
      exact Option.isSome_of_eq_some hxs
    · next hxs =>
      refine ⟨rfl, fun h => ?_⟩
      have hsome := h d hd
      rw [hxs] at hsome
      cases hsome

/-- What is matched where a field of an object is looked at. -/
theorem eq_map_of_fields {name : String} {x : Option Datum}
    (h : (d.entries?.map fun es => (es, field? es name)) = some (es, x)) :
    d = .map es ∧ field? es name = x := by
  cases d with
  | map es' =>
    obtain ⟨rfl, hx⟩ := Prod.mk.inj (Option.some.inj h)
    exact ⟨rfl, hx⟩
  | _ => cases h

theorem ends_entry (hmem : d ∈ items es "classpath") :
    Except.Ends (fun e => e.IsOfResolution ∨ Escapes es m aliases e) (IsEntryOf m.folder d)
      (entry file m.folder d) := by
  unfold entry
  split
  · next entry p hentry =>
    obtain ⟨rfl, hp⟩ := eq_map_of_fields hentry
    refine ((Path.ends_resolved m.folder (.parse p)).mono ?_ fun _ => id).bind ?_
    · rintro e ⟨rfl, hnull⟩
      exact .inr (.entry hmem hp hnull)
    · rintro path - ⟨rfl, hpath⟩
      split
      · next hlib => exact .folder hp hpath (.inl hlib)
      · next hlib => exact .folder hp hpath (.inr hlib)
      · next lib hlib hne => exact .archive hp hpath hne (fun h => hlib h)
  · exact .inl trivial

theorem ends_record (hmem : d ∈ items es "trace") :
    Except.Ends (fun e => e.IsOfResolution ∨ Escapes es m aliases e) (IsRecordOf d)
      (record file d) := by
  unfold record
  split
  · next record lib hrecord =>
    obtain ⟨rfl, hlib⟩ := eq_map_of_fields hrecord
    refine ((ends_itemsAt record "path").mono ?_ fun _ => id).bind ?_
    · rintro e ⟨rfl, hlist⟩
      exact .inr (.record hmem hlib hlist)
    · rintro xs - ⟨hxs, hlist⟩
      have hrecord := IsRecordOf.intro hlib hlist
      rw [← hxs] at hrecord
      exact hrecord
  · exact .inl trivial

theorem ends_sourceEntries (es : Entries Datum Datum) (m : Manifest) (aliases : List String) :
    Except.Ends (Escapes es m aliases)
      (fun _ => ∀ p ∈ (m.keyedPaths aliases).keys, ¬ (m.folder / p).HoldsNull)
      (m.sourceEntries aliases) := by
  have hall : Except.Ends (Escapes es m aliases)
      (List.Forall₂ (fun (named : String × String) _ => ¬ (m.folder / named.1).HoldsNull)
        (m.keyedPaths aliases)) (m.sourceEntries aliases) := by
    refine Except.Ends.mapM_forall₂ fun (p, key) hmem => ?_
    refine ((Path.ends_resolved m.folder (.parse p)).mono ?_ fun _ => id).map fun _ h => h.2
    rintro e ⟨rfl, hnull⟩
    exact .source (List.mem_map_of_mem hmem) hnull
  refine hall.mono (fun _ => id) fun entries hentries p hp => ?_
  obtain ⟨e, he, rfl⟩ := List.mem_map.1 hp
  obtain ⟨-, -, hpath⟩ := exists_right_of_forall₂ hentries he
  exact hpath

/-- The fields of a document in the order in which they are read. -/
theorem ends_items {name : String} (hname : name ∈ listNames) :
    Except.Ends (Escapes es m aliases)
      (fun xs => xs.getD [] = items es name ∧ IsListed es name) (itemsAt es name) := by
  refine (ends_itemsAt es name).mono ?_ fun _ => id
  rintro e ⟨rfl, hlist⟩
  exact .list hname hlist

theorem ends_document (hread : t.readText file = .ok text) :
    Except.Ends Fault.IsOfResolution (fun es => Json.parse? text = some (.map es))
      (document t file) := by
  rw [document, hread]
  dsimp only
  split
  · trivial
  · next es hes => exact hes
  · trivial

/-- The items under a name, each made into something. -/
theorem ends_mapM_itemsAt {β : Type} {P : Fault → Prop} {R : Datum → β → Prop} {name : String}
    {f : Datum → Except Fault β} (hlist : ∀ e, Escapes es m aliases e → P e)
    (hname : name ∈ listNames) (hf : ∀ d ∈ items es name, Except.Ends P (R d) (f d)) :
    Except.Ends P (fun bs => List.Forall₂ R (items es name) bs ∧ IsListed es name) (do
      ((← itemsAt es name).getD []).mapM f) := by
  refine ((ends_items hname).mono hlist fun _ => id).bind ?_
  rintro xs - ⟨hxs, hlisted⟩
  rw [hxs]
  exact (Except.Ends.mapM_forall₂ hf).mono (fun _ => id) fun bs hbs => ⟨hbs, hlisted⟩

/-- A basis file that can be read ends in a fault of the resolution, or its document is an object;
and then it ends with the basis of that document, or with a fault that escapes at one of the
fields. -/
theorem ends_resolve (hread : t.readText file = .ok text) (m : Manifest) (aliases : List String) :
    (resolve t file m aliases).Ends
      (fun e => e.IsOfResolution ∨
        ∃ es, Json.parse? text = some (.map es) ∧ Escapes es m aliases e)
      (fun b => ∃ es, Json.parse? text = some (.map es) ∧ IsBasisOf es m aliases b) := by
  refine (Logged.Ends.of ((ends_document hread).mono (fun _ => .inl) fun _ => id)).bind ?_
  intro es hes
  have hescapes : ∀ e, Escapes es m aliases e → e.IsOfResolution ∨
      ∃ es, Json.parse? text = some (.map es) ∧ Escapes es m aliases e :=
    fun e he => .inr ⟨es, hes, he⟩
  have hitem : ∀ e, e.IsOfResolution ∨ Escapes es m aliases e → e.IsOfResolution ∨
      ∃ es, Json.parse? text = some (.map es) ∧ Escapes es m aliases e :=
    fun e => Or.imp_right fun he => ⟨es, hes, he⟩
  -- the steps stand in the order in which the fields are read
  refine (Logged.Ends.of (ends_mapM_itemsAt (R := IsEntryOf m.folder) hescapes (by decide)
    fun d hd => (ends_entry hd).mono hitem fun _ => id)).bind ?_
  rintro classpath ⟨hclasspath, hlisted₁⟩
  refine (Logged.Ends.of (ends_mapM_itemsAt (R := IsRecordOf) hescapes (by decide)
    fun d hd => (ends_record hd).mono hitem fun _ => id)).bind ?_
  rintro trace ⟨htrace, hlisted₂⟩
  refine (Logged.Ends.of ((ends_sourceEntries es m aliases).mono hescapes fun _ => id)).bind ?_
  rintro _ hsources
  refine (Logged.Returns.say _).bind_ends ?_
  refine (Logged.Ends.of ((ends_items (by decide)).mono hescapes fun _ => id)).bind ?_
  rintro paths ⟨-, hlisted₃⟩
  refine (Logged.Ends.of ((ends_items (by decide)).mono hescapes fun _ => id)).bind ?_
  rintro repositories ⟨-, hlisted₄⟩
  have hlisted : ∀ name ∈ listNames, IsListed es name := by
    simp [listNames, hlisted₁, hlisted₂, hlisted₃, hlisted₄]
  exact .pure ⟨es, hes, ⟨hclasspath, htrace, hlisted, hsources⟩⟩

/-- A basis file that can be read comes to a basis or to a fault, whatever its text is. The basis
has one element of the classpath for each item of the classpath of the document and one record of
the trace for each item of its trace, in order, and its libraries have canonical names. The fault is
one of the resolution, or else the document is an object in which one of four fields, or the path in
a record of the trace, is there and cannot be gone through, or a path in it or in the manifest holds
the null character; no document of which a basis comes is such an object. -/
theorem ends_of_readText (hread : t.readText file = .ok text) (m : Manifest)
    (aliases : List String) :
    (resolve t file m aliases).Ends
      (fun e => e.IsOfResolution ∨
        ∃ es, Json.parse? text = some (.map es) ∧ Escapes es m aliases e)
      (fun b => ∃ es, Json.parse? text = some (.map es) ∧ IsBasisOf es m aliases b ∧
        IsCanonical b ∧ ∀ e, ¬ Escapes es m aliases e) :=
  (ends_resolve hread m aliases).mono (fun _ => id) fun _ ⟨es, hes, hbasis⟩ =>
    ⟨es, hes, hbasis, hbasis.isCanonical, fun _ => hbasis.not_escapes⟩

/-- A document with a folder and an archive. -/
def listedText : String :=
  "\x7b\"classpath\": [\x7b\"path\": \"src\"\x7d, " ++
    "\x7b\"path\": \"/x.jar\", \"lib\": \"x\"\x7d]\x7d"

/-- A document with null for the classpath. -/
def nullText : String := "\x7b\"classpath\": null\x7d"

/-- A tree with both documents. -/
def documents : Tree where
  files := [(["w", "listed.json"], listedText.toUTF8), (["w", "null.json"], nullText.toUTF8)]

/-- The basis is that of the document with an archive. -/
def holdsArchive (b : Basis) : Bool := b.libraries == [(⟨.root, ["x.jar"]⟩, "x/x")]

/-- What cannot be gone through was met. -/
def isShapeless : Except Fault Basis → Bool
  | .error .shapeless => true
  | _ => false

theorem eq_of_isShapeless {x : Except Fault Basis} (h : isShapeless x = true) :
    x = .error .shapeless := by
  unfold isShapeless at h
  split at h
  · rfl
  · cases h

/-- The first document comes to a basis, and the second to a fault that is not of the resolution. -/
theorem ends_of_readText_documents :
    (∃ b, (resolve documents ⟨.root, ["w", "listed.json"]⟩ { path := ⟨.root, ["w", "deps.edn"]⟩ }
        []).Returns b ∧ b.libraries = [(⟨.root, ["x.jar"]⟩, "x/x")] ∧ IsCanonical b) ∧
      (resolve documents ⟨.root, ["w", "null.json"]⟩ { path := ⟨.root, ["w", "deps.edn"]⟩ }
        []).outcome.1 = .error .shapeless ∧
      ∃ es, Json.parse? nullText = some (.map es) ∧
        Escapes es { path := ⟨.root, ["w", "deps.edn"]⟩ } [] .shapeless := by
  constructor
  · have hread : documents.readText ⟨.root, ["w", "listed.json"]⟩ = .ok listedText := by
      decide +kernel
    have hends := ends_of_readText hread { path := ⟨.root, ["w", "deps.edn"]⟩ } []
    obtain ⟨b, hb, hholds⟩ := Logged.exists_yields
      (resolve documents ⟨.root, ["w", "listed.json"]⟩ { path := ⟨.root, ["w", "deps.edn"]⟩ } [])
      holdsArchive (by decide +kernel)
    have hreturns := hb.returns hends.isSteady
    rcases hends with ⟨b', hb', es, -, -, hcanonical, -⟩ | ⟨e, he, -⟩
    · obtain rfl := hb'.yields.unique hb hreturns.isSteady
      exact ⟨b', hreturns, beq_iff_eq.1 hholds, hcanonical⟩
    · obtain ⟨said, hok⟩ := hreturns []
      obtain ⟨said', herror⟩ := he []
      rw [hok] at herror
      cases herror
  · have hread : documents.readText ⟨.root, ["w", "null.json"]⟩ = .ok nullText := by
      decide +kernel
    have houtcome : (resolve documents ⟨.root, ["w", "null.json"]⟩
        { path := ⟨.root, ["w", "deps.edn"]⟩ } []).outcome.1 = .error .shapeless :=
      eq_of_isShapeless (by decide +kernel)
    have hends := (ends_of_readText hread { path := ⟨.root, ["w", "deps.edn"]⟩ } []).outcome
    rw [houtcome] at hends
    exact ⟨houtcome, hends.resolve_left id⟩

end BasisFile

end BuildFiles
