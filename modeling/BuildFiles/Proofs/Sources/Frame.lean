import BuildFiles.Proofs.Sources.Folders
import BuildFiles.Sources.Package
import Mathlib.Data.List.Sort

/-!
# What build files leave alone

Build files are not read as sources. Two trees that differ in build files at most (`SameSources`)
have the same folders, the same declarations in them, and come to the same text of the build file of
a folder (`Layout.text_eq`). So it does not matter to a folder which build files are there already.
-/

namespace BuildFiles

namespace Tree

variable {t t' t'' : Tree} {l : Location}

/-- The place is that of a build file. -/
def isBuildFile (l : Location) : Bool := lastName l == BuildFile.fileName

/-- The trees differ at most in which build files there are and in what these hold. -/
structure SameSources (t t' : Tree) : Prop where
  files : t.files.filter (fun e => !isBuildFile e.1) = t'.files.filter fun e => !isBuildFile e.1
  folders : ∀ l, t.isFolder l = t'.isFolder l

namespace SameSources

theorem refl (t : Tree) : t.SameSources t := ⟨rfl, fun _ => rfl⟩

theorem symm (h : t.SameSources t') : t'.SameSources t :=
  ⟨h.files.symm, fun l => (h.folders l).symm⟩

theorem trans (h : t.SameSources t') (h' : t'.SameSources t'') : t.SameSources t'' :=
  ⟨h.files.trans h'.files, fun l => (h.folders l).trans (h'.folders l)⟩

/-- Trees with the same sources have the same contents, except in build files. -/
theorem get?_eq (h : t.SameSources t') (hl : isBuildFile l = false) : t.get? l = t'.get? l := by
  have hget := congrArg (Entries.get? · l) h.files
  rw [Entries.get?_filter (fun l => !isBuildFile l), Entries.get?_filter (fun l => !isBuildFile l),
    hl] at hget
  exact hget

/-- So they have the same files, except for build files. -/
theorem isFile_eq (h : t.SameSources t') (hl : isBuildFile l = false) :
    t.isFile l = t'.isFile l := by
  rw [isFile_eq_isSome, isFile_eq_isSome, h.get?_eq hl]

end SameSources

/-- The second tree is the first one with build files written to it. -/
structure GainsBuildFiles (t t' : Tree) : Prop extends t.SameSources t' where
  isFile : ∀ l, t.isFile l = true → t'.isFile l = true
  length : t.files.length ≤ t'.files.length

namespace GainsBuildFiles

theorem refl (t : Tree) : t.GainsBuildFiles t := ⟨.refl t, fun _ => id, Nat.le_refl _⟩

theorem trans (h : t.GainsBuildFiles t') (h' : t'.GainsBuildFiles t'') :
    t.GainsBuildFiles t'' :=
  ⟨h.toSameSources.trans h'.toSameSources, fun l hl => h'.isFile l (h.isFile l hl),
    Nat.le_trans h.length h'.length⟩

/-- Writing a build file into a folder of the tree adds only that, whatever was there. -/
theorem put (h : t.isFolder l = true) (content : ByteArray) :
    t.GainsBuildFiles (t.put (l ++ [BuildFile.fileName]) content) := by
  have hbuild : isBuildFile (l ++ [BuildFile.fileName]) = true := by
    rw [isBuildFile, lastName_append, beq_self_eq_true]
  refine ⟨⟨?_, fun l' => (isFolder_put h BuildFile.fileName content l').symm⟩, fun l' hl' => ?_, ?_⟩
  · exact (Entries.filter_insert (fun l => !isBuildFile l) (by rw [hbuild]; rfl) _ _).symm
  · exact isFile_iff.2 (Entries.mem_keys_insert.2 (.inr (isFile_iff.1 hl')))
  · exact Entries.length_le_insert _ _ _

end GainsBuildFiles

/-! ## Looking for a place -/

/-- The fault says that a path leads nowhere. -/
def IsLost (e : FileFault) : Prop := e = .missing ∨ e = .notFolder

/-- Two trees give the same answer, or the path that they are asked about leads nowhere in
either. -/
inductive Agrees {α : Type} : Except FileFault α → Except FileFault α → Prop
  | same (x : Except FileFault α) : Agrees x x
  | lost {e e' : FileFault} (h : IsLost e) (h' : IsLost e') : Agrees (.error e) (.error e')

/-- Two steps agree if the first ones do, and the second ones do from a value that is found. -/
theorem Agrees.bind {α β : Type} {x x' : Except FileFault α} {f f' : α → Except FileFault β}
    (hx : Agrees x x') (hf : ∀ a, x = .ok a → Agrees (f a) (f' a)) :
    Agrees (x >>= f) (x' >>= f') := by
  cases hx with
  | same x =>
    cases x with
    | error e => exact .same _
    | ok a => exact hf a rfl
  | lost h h' => exact .lost h h'

/-- Where one computation finds something, one that agrees with it finds it as well. -/
theorem Agrees.ok_iff {α : Type} {x x' : Except FileFault α} (h : Agrees x x') {a : α} :
    x = .ok a ↔ x' = .ok a := by
  cases h with
  | same x => exact Iff.rfl
  | lost h h' => simp

namespace SameSources

/-- A walk along names leads to the same place, or nowhere in both trees. -/
theorem go (h : t.SameSources t') (l : Location) (ns : List String) :
    Agrees (t.go l ns) (t'.go l ns) := by
  induction ns generalizing l with
  | nil => exact .same _
  | cons n ns ih =>
    rw [Tree.go, Tree.go, ← h.folders l]
    by_cases hfolder : t.isFolder l
    · simp only [hfolder, Bool.not_true, Bool.false_eq_true, if_false]
      split
      · exact .same _
      · exact ih _
    · simp only [hfolder, Bool.not_false, if_true]
      refine .lost ?_ ?_ <;> split
      · exact .inr rfl
      · exact .inl rfl
      · exact .inr rfl
      · exact .inl rfl

/-- A path leads to the same place, or nowhere in both trees. -/
theorem locate (h : t.SameSources t') (p : Path) : Agrees (t.locate p) (t'.locate p) :=
  Agrees.bind (.same _) fun ns _ => h.go [] ns

/-- A question about the place that a path leads to has the same answer, if the places that can be
meant answer it alike. -/
theorem holdsAt_eq (h : t.SameSources t') {p : Path} {holds holds' : Location → Bool}
    (hp : ∀ l, t.locate p = .ok l → holds l = holds' l) :
    t.holdsAt p holds = t'.holdsAt p holds' := by
  have hlocate := h.locate p
  rw [holdsAt, holdsAt]
  generalize t.locate p = x at hlocate hp
  generalize t'.locate p = x' at hlocate
  cases hlocate with
  | same x =>
    rcases x with e | l
    · cases e <;> rfl
    · exact congrArg Except.ok (hp l rfl)
  | lost hlost hlost' => rcases hlost with rfl | rfl <;> rcases hlost' with rfl | rfl <;> rfl

/-- In particular, the same paths lead to folders. -/
theorem hasFolder_eq (h : t.SameSources t') (p : Path) : t.hasFolder p = t'.hasFolder p :=
  h.holdsAt_eq fun l _ => h.folders l

end SameSources

/-- The path leads to no build file. -/
def Spares (t : Tree) (p : Path) : Prop := ∀ l, t.locate p = .ok l → isBuildFile l = false

/-- A path whose last name is not that of build files, and goes nowhere else, leads to no build
file. -/
theorem spares_of_name {p : Path} (h : ∀ n ∈ ["", "..", BuildFile.fileName], p.name ≠ n)
    (t : Tree) : t.Spares p := by
  have hne : p.names ≠ [] := by
    intro hnil
    refine h "" (by simp) ?_
    rw [Path.name, hnil]
    rfl
  intro l hl
  rw [isBuildFile, lastName_of_locate hne (h ".." (by simp)) hl, beq_eq_false_iff_ne]
  exact h _ (by simp)

namespace SameSources

/-- A path that leads to no build file leads to something in both trees, or in neither. -/
theorem has_eq (h : t.SameSources t') {p : Path} (hp : t.Spares p) : t.has p = t'.has p :=
  h.holdsAt_eq fun l hl => by rw [h.isFile_eq (hp l hl), h.folders l]

/-- Reading is the same where the path leads to a file that is the same. -/
theorem read_of_get? (h : t.SameSources t') {p : Path}
    (hget : ∀ l, t.locate p = .ok l → t.get? l = t'.get? l) : Agrees (t.read p) (t'.read p) := by
  refine (h.locate p).bind fun l hl => ?_
  rw [← hget l hl, ← h.folders l]
  exact .same _

/-- What is read as a text is the same if the contents are. -/
theorem readText_of_get? (h : t.SameSources t') {p : Path}
    (hget : ∀ l, t.locate p = .ok l → t.get? l = t'.get? l) :
    Agrees (t.readText p) (t'.readText p) :=
  (h.read_of_get? hget).bind fun _ _ => .same _

/-- A path that leads to no build file has the same contents to read. -/
theorem read (h : t.SameSources t') {p : Path} (hp : t.Spares p) :
    Agrees (t.read p) (t'.read p) :=
  h.read_of_get? fun l hl => h.get?_eq (hp l hl)

/-- A path that leads to no build file has the same text to read, too. -/
theorem readText (h : t.SameSources t') {p : Path} (hp : t.Spares p) :
    Agrees (t.readText p) (t'.readText p) :=
  h.readText_of_get? fun l hl => h.get?_eq (hp l hl)

/-- A file that was read reads the same. -/
theorem readText_eq_ok (h : t.SameSources t') {p : Path} (hp : t.Spares p) {text : String}
    (htext : (t.readText p).mapError Fault.file = .ok text) :
    (t'.readText p).mapError Fault.file = .ok text := by
  rw [(h.readText hp).ok_iff.1 (Except.ok_of_mapError htext)]
  rfl

end SameSources

/-- What a path leads to is not lost. -/
theorem GainsBuildFiles.has (h : t.GainsBuildFiles t') {p : Path} (hp : t.has p = .ok true) :
    t'.has p = .ok true := by
  rw [Tree.has, holdsAt] at hp ⊢
  split at hp
  · next l hl =>
    rw [(h.locate p).ok_iff.1 hl]
    have hthere := Except.ok.inj hp
    rw [Bool.or_eq_true] at hthere
    refine congrArg Except.ok ?_
    rw [Bool.or_eq_true, ← h.folders l]
    exact hthere.imp_left (h.isFile l)
  · cases hp
  · cases hp

/-! ## Files that are read -/

/-- A platform reads neither build files nor what is not a name. -/
theorem reads_eq_false (platform : Platform) :
    ∀ n ∈ ["", "..", BuildFile.fileName], platform.reads n = false := by
  cases platform <;> decide

/-- So no file that a platform reads is a build file. -/
theorem isBuildFile_eq_false {platform : Platform} (h : platform.reads (lastName l) = true) :
    isBuildFile l = false := by
  rw [isBuildFile, beq_eq_false_iff_ne]
  intro hname
  rw [hname, reads_eq_false platform BuildFile.fileName (by simp)] at h
  cases h

namespace SameSources

/-- The files are the same ones, in the same order, when build files are left out. -/
theorem keys_eq (h : t.SameSources t') :
    t.files.keys.filter (fun l => !isBuildFile l) =
      t'.files.keys.filter fun l => !isBuildFile l := by
  have hkeys := congrArg (List.map Prod.fst) h.files
  rwa [← Function.comp_def (fun l => !isBuildFile l) Prod.fst, ← List.filter_map,
    ← List.filter_map] at hkeys

/-- The files below a place that a platform reads are the same, in the same order. -/
theorem filesBelow_eq (h : t.SameSources t') (l : Location) (platform : Platform) :
    (t.filesBelow l).filter (fun way => platform.reads (lastName way)) =
      (t'.filesBelow l).filter fun way => platform.reads (lastName way) := by
  have hread : ∀ u : Tree, (u.filesBelow l).filter (fun way => platform.reads (lastName way)) =
      (((u.files.keys.filter fun l => !isBuildFile l).filter fun place =>
        leadsOn l place && platform.reads (lastName place)).map (·.drop l.length)) := by
    intro u
    rw [filesBelow, List.filter_map, List.filter_filter, List.filter_filter]
    refine congrArg _ (List.filter_congr fun place _ => ?_)
    rcases hleads : leadsOn l place
    · simp
    · rcases hreads : platform.reads (lastName place)
      · simp [lastName_drop hleads, hreads]
      · simp [lastName_drop hleads, hreads, isBuildFile_eq_false hreads]
  rw [hread t, hread t', h.keys_eq]

/-- The files that a walk comes to and that a platform reads are the same, in the same order. -/
theorem filesWalked_eq (h : t.SameSources t') (folder : Path) (l : Location) (platform : Platform) :
    (t.filesWalked (fun _ => true) folder l).filter (fun way => platform.reads (lastName way)) =
      (t'.filesWalked (fun _ => true) folder l).filter fun way =>
        platform.reads (lastName way) := by
  have hcomm (u : Tree) : (u.filesWalked (fun _ => true) folder l).filter
      (fun way => platform.reads (lastName way)) =
        ((u.filesBelow l).filter fun way => platform.reads (lastName way)).filter fun way =>
          (stops way.dropLast).all (walksInto (fun _ => true) folder) := by
    rw [filesWalked, List.filter_filter, List.filter_filter]
    exact List.filter_congr fun way _ => Bool.and_comm _ _
  rw [hcomm t, hcomm t', h.filesBelow_eq l platform]

/-- The files that lie in a folder and that a platform reads are the same, in the same order. -/
theorem fileNames_eq (h : t.SameSources t') (l : Location) (platform : Platform) :
    (t.fileNames l).filter platform.reads = (t'.fileNames l).filter platform.reads := by
  refine List.Pairwise.eq_of_mem_iff (r := (· < ·))
    ((Text.pairwise_lt_sorted ((nodup_eraseDups _).filter _)).filter _)
    ((Text.pairwise_lt_sorted ((nodup_eraseDups _).filter _)).filter _) fun n => ?_
  simp only [List.mem_filter]
  refine and_congr_left fun hreads => ?_
  have hread : platform.reads (lastName (l ++ [n])) = true := by rwa [lastName_append]
  have hmem := h.isFile_eq (isBuildFile_eq_false hread)
  change n ∈ t.fileNames l ↔ n ∈ t'.fileNames l
  rw [mem_fileNames, mem_fileNames, hmem]

end SameSources

end Tree

/-! ## Declarations -/

namespace Source

variable {t t' : Tree}

/-- The declaration of a file does not depend on build files. -/
theorem declarationOf?_eq (h : t.SameSources t') {p : Path} (hp : t.Spares p)
    (platform : Platform) : declarationOf? t p platform = declarationOf? t' p platform := by
  have htext := h.readText hp
  rw [declarationOf?, declarationOf?]
  generalize t.readText p = x at htext
  generalize t'.readText p = x' at htext
  cases htext with
  | same x => rfl
  | lost hlost hlost' => rcases hlost with rfl | rfl <;> rcases hlost' with rfl | rfl <;> rfl

/-- The files below a folder that a platform reads are the same. -/
theorem files_eq (h : t.SameSources t') (folder : Path) (platform : Platform) :
    files t folder platform = files t' folder platform := by
  have hlocate := h.locate folder
  rw [files, files]
  generalize t.locate folder = x at hlocate
  generalize t'.locate folder = x' at hlocate
  cases hlocate with
  | same x =>
    rcases x with e | l
    · rfl
    · simp only [h.filesWalked_eq folder l platform]
  | lost _ _ => rfl

/-- A platform reads no build file, wherever the path leads. -/
theorem spares_of_reads {p : Path} {platform : Platform} (h : platform.reads p.name = true)
    (t : Tree) : t.Spares p := by
  refine Tree.spares_of_name ?_ t
  rintro n hn rfl
  rw [Tree.reads_eq_false platform p.name hn] at h
  cases h

/-- What is found below a folder is read by the platform. -/
theorem reads_of_mem_files {folder p : Path} {platform : Platform}
    (hp : p ∈ files t folder platform) : platform.reads p.name = true := by
  rw [files] at hp
  split at hp
  · cases hp
  · next l _ =>
    obtain ⟨way, hway, rfl⟩ := List.mem_map.1 hp
    rw [List.mem_mergeSort, List.mem_filter] at hway
    obtain ⟨hne, -⟩ := Sources.mem_filesWalked.1 hway.1
    have hname : (folder.join (.ofNames way)).name = Tree.lastName way := by
      rw [Path.join_ofNames, Path.name, List.getLast?_append_of_ne_nil _ hne]
      rfl
    rw [hname]
    exact hway.2

/-- Indexing such a file has the same result. -/
theorem indexed?_eq (h : t.SameSources t') {p : Path} {platform : Platform}
    (hp : platform.reads p.name = true) :
    indexed? t platform p = indexed? t' platform p := by
  rw [indexed?, indexed?, declarationOf?_eq h (spares_of_reads hp t)]

/-- The declarations below a folder are the same. -/
theorem declarationsIn_eq (h : t.SameSources t') (folder : Path) (platform : Platform) :
    declarationsIn t folder platform = declarationsIn t' folder platform := by
  have hmapM : (files t folder platform).mapM (indexed? t platform) =
      (files t' folder platform).mapM (indexed? t' platform) := by
    rw [← files_eq h]
    exact mapM_congr fun p hp => indexed?_eq h (reads_of_mem_files hp)
  rw [declarationsIn, declarationsIn, h.hasFolder_eq, hmapM]

end Source

/-! ## Build files of folders -/

namespace Sources

variable {t t' : Tree} {folder : Path}

/-- The targets of a file do not depend on build files. -/
theorem Context.targets_eq (h : t.SameSources t') (c : Context) {p : Path}
    (hp : Platform.clj.reads p.name = true) : c.targets t p = c.targets t' p := by
  rw [targets, targets, Source.declarationOf?_eq h (Source.spares_of_reads hp t)]

namespace Layout

variable {l : Layout}

/-- The files right in a folder are the same. -/
theorem filesIn_eq (h : t.SameSources t') (hfolder : t.hasFolder folder = .ok true)
    (l : Layout) (platform : Platform) :
    l.filesIn t folder platform = l.filesIn t' folder platform := by
  obtain ⟨place, hplace, hthere⟩ := Tree.exists_of_hasFolder hfolder
  rw [filesIn, filesIn, hplace, (h.locate folder).ok_iff.1 hplace]
  simp only [← h.folders place, hthere, h.fileNames_eq, if_true]

/-- What is found right in a folder is read by the platform. -/
theorem reads_of_mem_filesIn {platform : Platform} {files : List Path}
    (h : l.filesIn t folder platform = .ok files) : ∀ p ∈ files, platform.reads p.name = true := by
  intro p hp
  rw [filesIn] at h
  split at h
  · cases h
  · split at h
    · obtain rfl := Except.ok.inj h
      simp only [List.mem_filter, List.mem_map] at hp
      obtain ⟨⟨n, ⟨-, hreads⟩, rfl⟩, -⟩ := hp
      rwa [← Path.name_entry folder n] at hreads
    · cases h

/-- So the targets of a folder for its files are the same. -/
theorem fileTargets_eq (h : t.SameSources t') (hfolder : t.hasFolder folder = .ok true)
    (l : Layout) : l.fileTargets t folder = l.fileTargets t' folder := by
  rw [fileTargets, fileTargets, ← filesIn_eq h hfolder]
  rcases hfiles : l.filesIn t folder .clj with e | files
  · rfl
  · have hmapM : files.mapM (l.targets t) = files.mapM (l.targets t') :=
      mapM_congr fun p hp => l.toContext.targets_eq h (reads_of_mem_filesIn hfiles p hp)
    change (do return (← files.mapM (l.targets t)).flatten) = _
    rw [hmapM]
    rfl

/-- Those for the folders below it are as well: a folder that holds a build file only is no
subtree. -/
theorem subtreeTargets_eq (h : t.SameSources t') (hfolder : t.hasFolder folder = .ok true)
    (l : Layout) : l.subtreeTargets t folder = l.subtreeTargets t' folder := by
  have heach : ∀ strip, l.aggregateTargets t folder strip = l.aggregateTargets t' folder strip := by
    intro strip
    funext a
    rw [aggregateTargets, aggregateTargets, filesIn_eq h hfolder]
  rw [subtreeTargets, subtreeTargets]
  simp only [heach]

/-- The text of the build file of a folder is the same whatever build files there are. -/
theorem text_eq (h : t.SameSources t') (hfolder : t.hasFolder folder = .ok true) (l : Layout) :
    l.text t folder = l.text t' folder := by
  rw [text, text, fileTargets_eq h hfolder, subtreeTargets_eq h hfolder]

end Layout

end Sources

end BuildFiles
