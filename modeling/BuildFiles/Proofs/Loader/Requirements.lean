import BuildFiles.Loader.Namespaces
import BuildFiles.Proofs.Inputs
import BuildFiles.Proofs.Loader.Text
import BuildFiles.Proofs.Namespace.Indexing
import BuildFiles.Proofs.Namespace.Name
import BuildFiles.Proofs.Sources.Labels
import BuildFiles.Proofs.Update

/-!
# What a loader requires

A loader is made from the tree as it is before it is written. What it requires is what was found
then, and that can be otherwise afterwards: a namespace that the file declared before is gone, and a
folder that was asked for may only be reached through one that was made on the way to the file. If
neither happens, the loader requires what is found in the tree that it is part of, and is written
again as it is: `requires_of_generate`.
-/

namespace BuildFiles

namespace Loader

open Reader

variable {names : List String} {ns function : String} {platform : Platform}

theorem not_mem_nameLines {c : Char} (hc : isTokenChar c = false)
    (hsep : c ∉ "\n    ".toList) (h : ∀ n ∈ names, IsToken (symbolOf n) n.toList) :
    c ∉ (nameLines names).toList := by
  have hnames : ∀ n ∈ names, c ∉ n.toList := fun n hn => not_mem_of_isToken (h n hn) hc
  cases names with
  | nil => simp [nameLines]
  | cons n names =>
    obtain ⟨hn, hnames⟩ := List.forall_mem_cons.1 hnames
    rw [nameLines, toList_intercalate_cons, List.mem_append, List.mem_flatMap]
    rintro (hmem | ⟨m, hm, hmem⟩)
    · exact hn hmem
    · exact (List.mem_append.1 hmem).elim hsep (hnames m hm)

theorem plainLines_text (fileName : String) (hns : IsToken (symbolOf ns) ns.toList)
    (hfunction : IsToken (symbolOf function) function.toList)
    (h : ∀ n ∈ names, IsToken (symbolOf n) n.toList) :
    Text.plainLines (text fileName ns function names platform) =
      text fileName ns function names platform := by
  have hnames := not_mem_nameLines (c := '\r') rfl (by decide) h
  have hopening : '\r' ∉ (if Text.endsWith fileName ".cljc" then "#?(:" ++ platform.name
      else "").toList := by
    split <;> cases platform <;> decide
  have hclosing : '\r' ∉ (if Text.endsWith fileName ".cljc" then ")" else "").toList := by
    split <;> decide
  refine Text.plainLines_eq ?_
  delta text
  simp only [String.toList_append, List.mem_append, not_or, and_assoc]
  exact ⟨by decide, not_mem_of_isToken hns rfl, by decide, hopening, by decide, hnames, by decide,
    hclosing, by decide, not_mem_of_isToken hfunction rfl, by decide, hnames, by decide⟩

end Loader

/-! ## Files below folders -/

namespace Source

variable {t t' : Tree} {folder p : Path} {platform : Platform} {l : Location} {n : String}

/-- The file declares the namespace. -/
def Declares (t : Tree) (p : Path) (platform : Platform) (n : String) : Prop :=
  ∃ d, declarationOf? t p platform = .ok (some d) ∧ d.name = n

/-- The path of a file with a declaration leads to it. -/
theorem Declares.exists_locate (h : Declares t p platform n) : ∃ l, t.locate p = .ok l := by
  obtain ⟨d, hd, -⟩ := h
  rw [declarationOf?] at hd
  split at hd
  · next text htext =>
    obtain ⟨content, hread, -⟩ := Except.bind_eq_ok htext
    obtain ⟨l, hl, -⟩ := Except.bind_eq_ok hread
    exact ⟨l, hl⟩
  · cases hd
  · cases hd

theorem mem_files : p ∈ files t folder platform ↔ ∃ l way, t.locate folder = .ok l ∧
    way ≠ [] ∧ t.isFile (l ++ way) = true ∧
      (∀ stop ∈ Tree.stops way.dropLast, Tree.walksInto (fun _ => true) folder stop = true) ∧
      platform.reads (Tree.lastName way) = true ∧ p = folder.join (.ofNames way) := by
  rw [files]
  split
  · next e he => simp [he]
  · next l hl =>
    simp only [List.mem_map, List.mem_mergeSort, List.mem_filter, Sources.mem_filesWalked, hl,
      Except.ok.injEq]
    constructor
    · rintro ⟨way, ⟨⟨hne, hfile, hwalked⟩, hreads⟩, rfl⟩
      exact ⟨l, way, rfl, hne, hfile, hwalked, hreads, rfl⟩
    · rintro ⟨_, way, rfl, hne, hfile, hwalked, hreads, rfl⟩
      exact ⟨way, ⟨⟨hne, hfile, hwalked⟩, hreads⟩, rfl⟩

theorem mem_declarationsIn {found : List (Path × Declaration)} {d : Declaration}
    (h : (declarationsIn t folder platform).Yields found) :
    (p, d) ∈ found ↔ p ∈ files t folder platform ∧ declarationOf? t p platform = .ok (some d) := by
  refine ⟨mem_files_of_declarationsIn h, fun ⟨hp, hd⟩ => ?_⟩
  obtain ⟨_, -, h⟩ := h.bind
  obtain ⟨indexed, hindexed, hpure⟩ := h.bind
  obtain ⟨found?, hmem, hyields⟩ := exists_right_of_forall₂ hindexed.mapM hp
  rw [indexed?, hd] at hyields
  rw [hpure.pure, List.mem_filterMap]
  exact ⟨found?, hmem, hyields.pure⟩

/-! ## Files before and after a write -/

/-- Elsewhere than at the place there are the same files. -/
theorem isFile_eq_of_writes (h : t.Writes l t') {place : Location} (hne : place ≠ l) :
    t'.isFile place = t.isFile place := by
  rw [Tree.isFile_eq_isSome, Tree.isFile_eq_isSome, h.get? place hne]

/-- And they read the same. -/
theorem declarationOf?_eq_of_writes (h : t.Writes l t') {place : Location} {way : List String}
    (hfolder : t.locate folder = .ok place) (hfile : t.isFile (place ++ way) = true)
    (hway : ∀ m ∈ way, Tree.IsStep m) (hne : place ++ way ≠ l) (platform : Platform) :
    declarationOf? t' (folder.join (.ofNames way)) platform =
      declarationOf? t (folder.join (.ofNames way)) platform := by
  rw [Tree.isFile_eq_isSome] at hfile
  obtain ⟨content, hget⟩ := Option.isSome_iff_exists.1 hfile
  have hread : t'.read (folder.join (.ofNames way)) = t.read (folder.join (.ofNames way)) := by
    rw [Tree.read_join hfolder hget hway,
      Tree.read_join (h.folders.locate hfolder) ((h.get? _ hne).trans hget) hway]
  rw [declarationOf?, declarationOf?, Tree.readText, Tree.readText, hread]

/-- What a path reads as that leads to the place of another one, if it can be looked at. -/
theorem readText_eq_or_of_locate {place : Location} {way : List String} {output : Path}
    (hfolder : t.locate folder = .ok place) (hfile : t.isFile (place ++ way) = true)
    (houtput : t.locate output = .ok (place ++ way)) :
    t.readText (folder.join (.ofNames way)) = t.readText output ∨
      ∃ e, t.readText (folder.join (.ofNames way)) = .error e ∧ e ≠ .nullCharacter := by
  have hsteps := Tree.isStep_of_locate houtput
  have hlocate := Tree.locate_join hfolder hfile
    fun m hm => hsteps m (List.mem_append_right _ hm)
  rcases hns : Tree.namesOf (folder.join (.ofNames way)) with e | ns
  · right
    have herror : t.readText (folder.join (.ofNames way)) = .error e := by
      rw [Tree.readText, Tree.read, hlocate, hns]
      rfl
    refine ⟨e, herror, ?_⟩
    rintro rfl
    refine readText_ne_nullCharacter (fun n hn => ?_) herror
    rw [Path.join_ofNames] at hn
    obtain ⟨ns, hns, -⟩ := Except.bind_eq_ok hfolder
    rcases List.mem_append.1 hn with hn | hn
    · exact (Tree.namesOf_cases hns).2 n hn
    · exact (hsteps n (List.mem_append_right _ hn)).whole
  · left
    rw [Tree.readText, Tree.readText, Tree.read, Tree.read, hlocate, hns, houtput]
    rfl

end Source

namespace Loader

open Source

variable {t t' : Tree} {r : Request} {n : String} {names : List String} {l : Location}

/-! ## What is found -/

theorem mem_namespaces {folders : List Path} {platform : Platform} {excluded : List String}
    (h : (namespaces t folders platform excluded).Yields names) :
    n ∈ names ↔ n ∉ excluded ∧
      ∃ folder ∈ folders, ∃ p ∈ files t folder platform, Declares t p platform n := by
  obtain ⟨found, hfound, hpure⟩ := h.bind
  rw [hpure.pure, Text.mem_sortedOnce, List.mem_filter, and_comm]
  refine and_congr (by simp) ?_
  simp only [List.mem_map, List.mem_flatten, Prod.exists]
  constructor
  · rintro ⟨p, d, ⟨each, heach, hmem⟩, rfl⟩
    obtain ⟨folder, hfolder, hyields⟩ := exists_left_of_forall₂ hfound.mapM heach
    obtain ⟨hp, hd⟩ := (mem_declarationsIn hyields).1 hmem
    exact ⟨folder, hfolder, p, hp, d, hd, rfl⟩
  · rintro ⟨folder, hfolder, p, hp, d, hd, rfl⟩
    obtain ⟨each, heach, hyields⟩ := exists_right_of_forall₂ hfound.mapM hfolder
    exact ⟨p, d, ⟨each, heach, (mem_declarationsIn hyields).2 ⟨hp, hd⟩⟩, rfl⟩

theorem pairwise_namespaces {folders : List Path} {platform : Platform} {excluded : List String}
    (h : (namespaces t folders platform excluded).Yields names) : names.Pairwise (· < ·) := by
  obtain ⟨found, -, hpure⟩ := h.bind
  rw [hpure.pure]
  exact Text.pairwise_lt_sortedOnce _

namespace Request

/-- The folders that are gone through. -/
def inputs (r : Request) : List Path := r.folders.map fun s => r.root.join (.parse s)

/-- Where the loader is written to. -/
def output (r : Request) : Path := r.root.join (.parse r.fileName)

/-- A file below one of the folders declares the namespace, which is not to be left out. -/
def Finds (r : Request) (t : Tree) (n : String) : Prop :=
  n ∉ r.ns :: r.excluded ∧
    ∃ folder ∈ r.inputs, ∃ p ∈ files t folder r.platform, Declares t p r.platform n

/-- The file that the loader is written to is below one of the folders, and declared the namespace
before. -/
def Forgets (r : Request) (t t' : Tree) (n : String) : Prop :=
  n ∉ r.ns :: r.excluded ∧ ∃ folder ∈ r.inputs, ∃ p ∈ files t folder r.platform,
    t.locate p = t'.locate r.output ∧ Declares t p r.platform n

/-- A folder that led nowhere before leads to a file that declares the namespace. -/
def Opens (r : Request) (t t' : Tree) (n : String) : Prop :=
  n ∉ r.ns :: r.excluded ∧ ∃ folder ∈ r.inputs, (∀ l, t.locate folder ≠ .ok l) ∧
    ∃ p ∈ files t' folder r.platform, Declares t' p r.platform n

/-- The text of the loader of the names. -/
def text (r : Request) (names : List String) : String :=
  Loader.text r.fileName r.ns r.function names r.platform

/-- The second tree is the first with the loader of the names written to the place. -/
structure Wrote (r : Request) (t t' : Tree) (names : List String) (l : Location) : Prop where
  complete : (r.fileName.isEmpty || r.ns.isEmpty || r.function.isEmpty) = false
  found : (namespaces t r.inputs r.platform (r.ns :: r.excluded)).Yields names
  update : ∃ changed, t.update r.output (r.text names) = .ok (t', changed)
  place : t'.locate r.output = .ok l
  writes : t.Writes l t'
  reads : t'.readText r.output = .ok (r.text names)

theorem isToken_of_finds (h : r.Finds t n) : Reader.IsToken (symbolOf n) n.toList := by
  obtain ⟨-, folder, -, p, -, d, hd, rfl⟩ := h
  rw [declarationOf?] at hd
  split at hd
  · exact isToken_of_declaration? hd
  · cases hd
  · cases hd

/-- What is generated is the loader of what is found: the names are found before anything is
written, and the tree is then updated at the one path that was asked for. -/
theorem exists_wrote (hns : Reader.IsToken (symbolOf r.ns) r.ns.toList)
    (hfunction : Reader.IsToken (symbolOf r.function) r.function.toList) {p : Path}
    (h : (r.generate t).Yields (t', p)) : p = r.output ∧ ∃ names l, r.Wrote t t' names l := by
  rw [generate] at h
  split at h
  · obtain ⟨_, hthrow, -⟩ := h.bind
    exact hthrow.throw.elim
  · next hcomplete =>
    obtain ⟨names, hnames, h⟩ := Logged.Yields.bind (x := namespaces t r.inputs r.platform _) h
    have hplain : Text.plainLines (r.text names) = r.text names :=
      plainLines_text r.fileName hns hfunction fun n hn =>
        isToken_of_finds ((mem_namespaces hnames).1 hn)
    dsimp only at h
    split at h
    · exact h.throw.elim
    · next written changed hupdate =>
      obtain ⟨_, -, hpure⟩ := h.bind
      obtain ⟨rfl, rfl⟩ := Prod.mk.inj hpure.pure
      obtain ⟨l, hplace, hwrites, hreads⟩ := Tree.writes_of_update hplain hupdate
      exact ⟨rfl, names, l, Bool.eq_false_iff.2 hcomplete, hnames, ⟨changed, hupdate⟩, hplace,
        hwrites, hreads⟩

namespace Wrote

theorem mem_iff (w : r.Wrote t t' names l) : n ∈ names ↔ r.Finds t n := mem_namespaces w.found

theorem exists_declaration (w : r.Wrote t t' names l)
    (hns : Reader.IsToken (symbolOf r.ns) r.ns.toList) (source : String) :
    ∃ d, declaration? (r.text names) source r.platform = .ok (some d) ∧ d.name = r.ns ∧
      ∀ n, n ∈ d.requires ↔ n ∈ names :=
  Loader.exists_declaration r.fileName r.function source hns
    fun _ hn => isToken_of_finds (w.mem_iff.1 hn)

theorem isFile (w : r.Wrote t t' names l) : t'.isFile l = true := by
  obtain ⟨content, hread, -⟩ := Except.bind_eq_ok w.reads
  obtain ⟨place, hplace, hread⟩ := Except.bind_eq_ok hread
  obtain rfl := Except.ok.inj (w.place.symm.trans hplace)
  split at hread
  · next hget => exact Tree.isFile_of_get? hget
  · cases hread

/-- What is found in the file itself afterwards is its own namespace, if anything is. -/
theorem declarationOf?_place (w : r.Wrote t t' names l)
    (hns : Reader.IsToken (symbolOf r.ns) r.ns.toList) {folder : Path} {place : Location}
    {way : List String} (hfolder : t'.locate folder = .ok place) (hl : place ++ way = l) :
    (∃ d, declarationOf? t' (folder.join (.ofNames way)) r.platform = .ok (some d) ∧
      d.name = r.ns) ∨
      ∃ f, declarationOf? t' (folder.join (.ofNames way)) r.platform = .error f ∧
        isSkippable f = true := by
  subst hl
  rcases readText_eq_or_of_locate hfolder w.isFile w.place with hread | ⟨e, he, hnull⟩
  · left
    obtain ⟨d, hd, hname, -⟩ := w.exists_declaration hns (folder.join (.ofNames way)).toText
    refine ⟨d, ?_, hname⟩
    rw [declarationOf?, hread, w.reads]
    exact hd
  · right
    rw [declarationOf?, he]
    cases e with
    | nullCharacter => exact absurd rfl hnull
    | _ => exact ⟨_, rfl, rfl⟩

/-- A namespace is found again, unless it was the file that declared it. -/
theorem finds_or_forgets (w : r.Wrote t t' names l) (ht : t.IsProper) (h : r.Finds t n) :
    r.Finds t' n ∨ r.Forgets t t' n := by
  obtain ⟨hexcluded, folder, hfolder, p, hp, hd⟩ := h
  obtain ⟨place, way, hplace, hne, hfile, hwalked, hreads, rfl⟩ := mem_files.1 hp
  have hway := ht.isStep hfile
  by_cases hl : place ++ way = l
  · right
    obtain ⟨l', hl'⟩ := hd.exists_locate
    have hjoin := Tree.locate_join hplace hfile hway
    obtain ⟨_, -, rfl⟩ := Except.map_eq_ok (hjoin.symm.trans hl')
    exact ⟨hexcluded, folder, hfolder, _, hp, by rw [hl', w.place, hl], hd⟩
  · left
    have hfile' := (isFile_eq_of_writes w.writes hl).trans hfile
    refine ⟨hexcluded, folder, hfolder, _, mem_files.2 ⟨place, way, w.writes.folders.locate hplace,
      hne, hfile', hwalked, hreads, rfl⟩, ?_⟩
    rwa [Declares, declarationOf?_eq_of_writes w.writes hplace hfile hway hl]

/-- A namespace that is found afterwards was found before, unless a folder led nowhere then and
leads to it now: making a folder for the loader is all that writing it does to others. -/
theorem finds_or_opens (w : r.Wrote t t' names l) (ht : t.IsProper)
    (hns : Reader.IsToken (symbolOf r.ns) r.ns.toList) (h : r.Finds t' n) :
    r.Finds t n ∨ r.Opens t t' n := by
  obtain ⟨hexcluded, folder, hfolder, p, hp, hd⟩ := h
  by_cases hthere : ∃ place, t.locate folder = .ok place
  · left
    obtain ⟨place, way, hplace', hne, hfile', hwalked, hreads, rfl⟩ := mem_files.1 hp
    obtain ⟨place₀, hplace⟩ := hthere
    obtain rfl := Except.ok.inj ((w.writes.folders.locate hplace).symm.trans hplace')
    by_cases hl : place₀ ++ way = l
    · obtain ⟨d, hd, rfl⟩ := hd
      rcases w.declarationOf?_place hns hplace' hl with ⟨d', hd', hname⟩ | ⟨f, hf, -⟩
      · obtain rfl := Option.some.inj (Except.ok.inj (hd.symm.trans hd'))
        exact absurd (hname ▸ List.mem_cons_self) hexcluded
      · rw [hf] at hd
        cases hd
    · have hfile := (isFile_eq_of_writes w.writes hl).symm.trans hfile'
      refine ⟨hexcluded, folder, hfolder, _, mem_files.2 ⟨place₀, way, hplace, hne, hfile, hwalked,
        hreads, rfl⟩, ?_⟩
      rwa [Declares, declarationOf?_eq_of_writes w.writes hplace hfile (ht.isStep hfile) hl] at hd
  · right
    exact ⟨hexcluded, folder, hfolder, fun l hl => hthere ⟨l, hl⟩, p, hp, hd⟩

/-- A file below a folder that led somewhere is not stopped at: it is the one that was written, or
it was gone through before. -/
theorem exists_indexed (w : r.Wrote t t' names l) (ht : t.IsProper)
    (hns : Reader.IsToken (symbolOf r.ns) r.ns.toList) {folder : Path} (hfolder : folder ∈ r.inputs)
    {place : Location} (hplace : t.locate folder = .ok place) {p : Path}
    (hp : p ∈ files t' folder r.platform) : ∃ x, (indexed? t' r.platform p).Returns x := by
  obtain ⟨place', way, hplace', hne, hfile', hwalked, hreads, rfl⟩ := mem_files.1 hp
  obtain rfl := Except.ok.inj ((w.writes.folders.locate hplace).symm.trans hplace')
  by_cases hl : place ++ way = l
  · rcases w.declarationOf?_place hns hplace' hl with ⟨d, hd, -⟩ | ⟨f, hf, hskip⟩
    · rw [indexed?, hd]
      exact ⟨_, .pure _⟩
    · rw [indexed?, hf]
      dsimp only
      rw [if_pos hskip]
      exact ⟨_, (Logged.Returns.say _).bind (.pure none)⟩
  · have hfile := (isFile_eq_of_writes w.writes hl).symm.trans hfile'
    have hp : folder.join (.ofNames way) ∈ files t folder r.platform :=
      mem_files.2 ⟨place, way, hplace, hne, hfile, hwalked, hreads, rfl⟩
    obtain ⟨found, hfound, -⟩ := w.found.bind
    obtain ⟨each, -, heach⟩ := exists_right_of_forall₂ hfound.mapM hfolder
    obtain ⟨_, -, heach⟩ := heach.bind
    obtain ⟨indexed, hindexed, -⟩ := heach.bind
    obtain ⟨x, -, hx⟩ := exists_right_of_forall₂ hindexed.mapM hp
    rw [indexed?, declarationOf?_eq_of_writes w.writes hplace hfile (ht.isStep hfile) hl]
    exact ⟨x, hx.returns (steady_indexed? t r.platform _)⟩

/-- Where every folder led somewhere, the folders can be gone through again. -/
theorem exists_namespaces (w : r.Wrote t t' names l) (ht : t.IsProper)
    (hns : Reader.IsToken (symbolOf r.ns) r.ns.toList)
    (hfolders : ∀ folder ∈ r.inputs, ∃ place, t.locate folder = .ok place) :
    ∃ names', (namespaces t' r.inputs r.platform (r.ns :: r.excluded)).Returns names' := by
  have hdeclarations : ∀ folder ∈ r.inputs,
      ∃ found, (declarationsIn t' folder r.platform).Returns found ∧ True := by
    intro folder hfolder
    obtain ⟨place, hplace⟩ := hfolders folder hfolder
    have hindexed : ∀ p ∈ files t' folder r.platform,
        ∃ x, (indexed? t' r.platform p).Returns x ∧ True := fun p hp =>
      (w.exists_indexed ht hns hfolder hplace hp).imp fun _ hx => ⟨hx, trivial⟩
    obtain ⟨indexed, hmapM, -⟩ := Logged.Returns.exists_mapM hindexed
    have hthere : t'.hasFolder folder = .ok (t'.isFolder place) := by
      rw [Tree.hasFolder, Tree.holdsAt, w.writes.folders.locate hplace]
    exact ⟨_, (hasFolder_bind hthere).bind (hmapM.bind (.pure _)), trivial⟩
  obtain ⟨found', hmapM, -⟩ := Logged.Returns.exists_mapM hdeclarations
  exact ⟨_, hmapM.bind (.pure _)⟩

end Wrote

/-- The declaration requires what is found in the tree. -/
def Fits (r : Request) (d : Declaration) (t : Tree) : Prop := ∀ n, n ∈ d.requires ↔ r.Finds t n

namespace Wrote

variable {names' : List String} {l' : Location} {t'' : Tree} {d : Declaration}

/-- What was found before is found afterwards if nothing is forgotten and nothing opened. -/
theorem fits_iff (w : r.Wrote t t' names l) (ht : t.IsProper)
    (hns : Reader.IsToken (symbolOf r.ns) r.ns.toList) (hd : r.Fits d t) :
    r.Fits d t' ↔ (∀ n, r.Forgets t t' n → r.Finds t' n) ∧ ∀ n, r.Opens t t' n → r.Finds t n := by
  constructor
  · intro hd'
    refine ⟨fun n hn => ?_, fun n hn => ?_⟩
    · obtain ⟨hexcluded, folder, hfolder, p, hp, -, hdeclares⟩ := hn
      exact (hd' n).1 ((hd n).2 ⟨hexcluded, folder, hfolder, p, hp, hdeclares⟩)
    · obtain ⟨hexcluded, folder, hfolder, -, p, hp, hdeclares⟩ := hn
      exact (hd n).1 ((hd' n).2 ⟨hexcluded, folder, hfolder, p, hp, hdeclares⟩)
  · rintro ⟨hforgets, hopens⟩ n
    rw [hd n]
    exact ⟨fun hn => (w.finds_or_forgets ht hn).elim id (hforgets n),
      fun hn => (w.finds_or_opens ht hns hn).elim id (hopens n)⟩

/-- A loader that fits is made from the same names again. -/
theorem names_eq (w : r.Wrote t t' names l) (hrequires : ∀ n, n ∈ d.requires ↔ n ∈ names)
    (hd : r.Fits d t')
    (h : (namespaces t' r.inputs r.platform (r.ns :: r.excluded)).Yields names') :
    names' = names := by
  refine List.Pairwise.eq_of_mem_iff (r := (· < ·)) (pairwise_namespaces h)
    (pairwise_namespaces w.found) fun n => ?_
  rw [← hrequires, hd n]
  exact mem_namespaces h

/-- A loader that fits is written again with the text it has, so that the tree stays as it is. -/
theorem eq_of_fits (w : r.Wrote t t' names l) (w' : r.Wrote t' t'' names' l')
    (hrequires : ∀ n, n ∈ d.requires ↔ n ∈ names) (hd : r.Fits d t') : t'' = t' := by
  obtain ⟨changed, hupdate⟩ := w'.update
  rw [w.names_eq hrequires hd w'.found, Tree.update_of_readText w.reads] at hupdate
  exact (Prod.mk.inj (Except.ok.inj hupdate)).1.symm

/-- A loader that stays as it is fits. -/
theorem fits_of_readText_eq (w : r.Wrote t t' names l) (w' : r.Wrote t' t'' names' l')
    (hns : Reader.IsToken (symbolOf r.ns) r.ns.toList) {source : String}
    (hd : declaration? (r.text names) source r.platform = .ok (some d))
    (h : t''.readText r.output = t'.readText r.output) : r.Fits d t' := by
  have htext : r.text names' = r.text names := by
    rw [w.reads, w'.reads] at h
    exact Except.ok.inj h
  obtain ⟨d', hd', -, hrequires'⟩ := w'.exists_declaration hns source
  rw [htext, hd] at hd'
  obtain rfl := Option.some.inj (Except.ok.inj hd')
  exact fun n => (hrequires' n).trans w'.mem_iff

theorem returns_generate (w : r.Wrote t t' names l)
    (h : (namespaces t' r.inputs r.platform (r.ns :: r.excluded)).Returns names) :
    (r.generate t').Returns (t', r.output) := by
  have hupdate : t'.update (r.root.join (.parse r.fileName))
      (Loader.text r.fileName r.ns r.function names r.platform) = .ok (t', false) :=
    Tree.update_of_readText w.reads
  rw [generate, if_neg (by simp [w.complete])]
  refine Logged.Returns.bind (x := namespaces t' r.inputs r.platform _) h ?_
  dsimp only
  rw [hupdate]
  exact (Logged.Returns.say _).bind (.pure _)

end Wrote

/-- A loader requires what was found before it was written. That is what is found afterwards exactly
if nothing that the file itself declared before is found no more, and nothing is found now behind a
folder that led nowhere; and then, and only then, the file stays as it is when the loader is
generated once more, which succeeds if no folder led nowhere. -/
theorem requires_of_generate {p : Path} (ht : t.IsProper)
    (hns : Reader.IsSymbol r.platform.features r.ns)
    (hfunction : Reader.IsSymbol r.platform.features r.function)
    (h : (r.generate t).Yields (t', p)) :
    ∃ d, declarationOf? t' p r.platform = .ok (some d) ∧ d.name = r.ns ∧ r.Fits d t ∧
      (r.Fits d t' ↔ (∀ n, r.Forgets t t' n → r.Finds t' n) ∧
        ∀ n, r.Opens t t' n → r.Finds t n) ∧
      (∀ t'' p', (r.generate t').Yields (t'', p') →
        (t''.readText p = t'.readText p ↔ r.Fits d t') ∧ (r.Fits d t' → t'' = t')) ∧
      ((∀ folder ∈ r.inputs, ∃ l, t.locate folder = .ok l) → r.Fits d t' →
        (r.generate t').Returns (t', p)) := by
  have hns := Reader.isToken_of_isSymbol hns
  have hfunction := Reader.isToken_of_isSymbol hfunction
  obtain ⟨rfl, names, l, w⟩ := exists_wrote hns hfunction h
  obtain ⟨d, hd, hname, hrequires⟩ := w.exists_declaration hns r.output.toText
  have hfits : r.Fits d t := fun n => (hrequires n).trans w.mem_iff
  refine ⟨d, ?_, hname, hfits, w.fits_iff ht hns hfits, fun t'' p' h' => ?_, ?_⟩
  · rw [declarationOf?, w.reads]
    exact hd
  · obtain ⟨-, names', l', w'⟩ := exists_wrote hns hfunction h'
    have hstays : r.Fits d t' → t'' = t' := w.eq_of_fits w' hrequires
    exact ⟨⟨w.fits_of_readText_eq w' hns hd, fun hd' => by rw [hstays hd']⟩, hstays⟩
  · intro hfolders hd'
    obtain ⟨names', hnames'⟩ := w.exists_namespaces ht hns hfolders
    obtain rfl := w.names_eq hrequires hd' hnames'.yields
    exact w.returns_generate hnames'

/-! ## A file that declared another namespace -/

/-- A folder with one file, which declares a namespace. -/
def renamedTree : Tree where
  files := [(["w", "src", "all.clj"], "(ns old)".toUTF8)]

/-- A loader of another name is asked for in the place of the file. -/
def renamed : Request where
  root := ⟨.root, ["w"]⟩
  fileName := "src/all.clj"
  ns := "all"
  function := "names"
  folders := ["src"]

/-- The loader requires the namespace that its own file declared, and the next run takes it out. -/
theorem not_fits_of_renamed : ∃ d t' p t'' p', (renamed.generate renamedTree).Yields (t', p) ∧
    declarationOf? t' p .clj = .ok (some d) ∧ "old" ∈ d.requires ∧ ¬ renamed.Fits d t' ∧
      (renamed.generate t').Yields (t'', p') ∧ t''.readText p ≠ t'.readText p := by
  obtain ⟨⟨t', p⟩, hfirst, hholds⟩ := Logged.exists_yields (renamed.generate renamedTree)
    (fun made => (renamed.generate made.1).comesTo fun again =>
      (again.1.readText made.2).toOption != (made.1.readText made.2).toOption)
    (by decide +kernel)
  obtain ⟨⟨t'', p'⟩, hsecond, hholds⟩ := Logged.exists_yields _ _ hholds
  have hne : t''.readText p ≠ t'.readText p := by
    intro hsame
    dsimp only at hholds
    rw [hsame, bne_self_eq_false] at hholds
    cases hholds
  have hold : renamed.Finds renamedTree "old" := by
    have hplain : Sources.plainName? renamedTree ⟨.root, ["w", "src", "all.clj"]⟩ = some "old" := by
      decide +kernel
    have hfile : Path.mk .root ["w", "src", "all.clj"] ∈
        files renamedTree ⟨.root, ["w", "src"]⟩ .clj := by
      decide +kernel
    obtain ⟨old, hold, -, hname⟩ := Sources.exists_of_plainName? hplain
    exact ⟨by decide, _, List.mem_cons_self, _, hfile, old, hold, hname⟩
  have hproper : renamedTree.IsProper := by decide +kernel
  have hns : Reader.IsSymbol ["clj"] "all" := Reader.isSymbol_of_token (by decide)
  have hfunction : Reader.IsSymbol ["clj"] "names" := Reader.isSymbol_of_token (by decide)
  obtain ⟨d, hd, -, hfits, -, hstays, -⟩ :=
    requires_of_generate (r := renamed) hproper hns hfunction hfirst
  exact ⟨d, t', p, t'', p', hfirst, hd, (hfits "old").2 hold,
    fun hd' => hne (((hstays t'' p' hsecond).1).2 hd'), hsecond, hne⟩

end Request

end Loader

end BuildFiles
