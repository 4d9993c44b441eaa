import BuildFiles.Sources.Package
import BuildFiles.Proofs.Computation
import BuildFiles.Proofs.Path
import BuildFiles.Proofs.Text
import Mathlib.Data.List.Nodup
import Mathlib.Tactic.SplitIfs

/-!
# Proper trees

A tree is proper if a file system could hold it: its names are names, its places can be told by a
path, and no file is a folder as well. In such a tree the path to a folder leads to that folder
(`locate_of_isFolder`), and its files are those that stand one name below (`mem_fileNames`).
-/

namespace BuildFiles

namespace Tree

/-- A name that something in a folder can have. -/
structure IsName (n : String) : Prop where
  ne_empty : n ≠ ""
  no_slash : '/' ∉ n.toList
  ne_up : n ≠ ".."
  whole : isBroken n = false
  short : n.utf8ByteSize ≤ longestName

/-- The name of a file is one part of a path. -/
theorem IsName.isSegment {n : String} (h : IsName n) : Path.IsSegment n :=
  ⟨h.ne_empty, h.no_slash⟩

/-- A file system could hold the tree. -/
structure IsProper (t : Tree) : Prop where
  names : ∀ place ∈ t.files.keys ++ t.folders, ∀ n ∈ place, IsName n
  paths : ∀ place ∈ t.files.keys ++ t.folders,
    (Path.mk .root place).toText.utf8ByteSize ≤ longestPath
  apart : ∀ place ∈ t.files.keys, t.isFolder place = false

/-- No file is a folder as well. -/
def IsApart (t : Tree) : Prop := ∀ l, t.isFile l = true → t.isFolder l = false

instance (n : String) : Decidable (IsName n) :=
  decidable_of_iff (n ≠ "" ∧ '/' ∉ n.toList ∧ n ≠ ".." ∧ isBroken n = false ∧
      n.utf8ByteSize ≤ longestName)
    ⟨fun ⟨h₁, h₂, h₃, h₄, h₅⟩ => ⟨h₁, h₂, h₃, h₄, h₅⟩,
      fun h => ⟨h.ne_empty, h.no_slash, h.ne_up, h.whole, h.short⟩⟩

instance (t : Tree) : Decidable t.IsProper :=
  decidable_of_iff ((∀ place ∈ t.files.keys ++ t.folders, ∀ n ∈ place, IsName n) ∧
      (∀ place ∈ t.files.keys ++ t.folders,
        (Path.mk .root place).toText.utf8ByteSize ≤ longestPath) ∧
      ∀ place ∈ t.files.keys, t.isFolder place = false)
    ⟨fun ⟨h₁, h₂, h₃⟩ => ⟨h₁, h₂, h₃⟩, fun h => ⟨h.names, h.paths, h.apart⟩⟩

variable {t : Tree} {l l' : Location}

/-! ## Files and folders -/

/-- The files are the places with contents. -/
theorem isFile_iff : t.isFile l = true ↔ l ∈ t.files.keys := Entries.has_eq_true_iff

/-- What has contents is a file. -/
theorem isFile_of_get? {content : ByteArray} (h : t.get? l = some content) : t.isFile l = true := by
  rw [isFile_eq_isSome, h]
  rfl

theorem leadsOn_iff : leadsOn l l' = true ↔ l <+: l' ∧ l ≠ l' := by
  rw [leadsOn, Bool.and_eq_true, List.isPrefixOf_iff_prefix, bne_iff_ne]

/-- The folders are the root, those that were made, with what is above them, and whatever is above a
file. -/
theorem isFolder_iff : t.isFolder l = true ↔ l = [] ∨ (∃ place ∈ t.folders, l <+: place) ∨
    ∃ place ∈ t.files.keys, l <+: place ∧ l ≠ place := by
  simp only [isFolder, Bool.or_eq_true, List.isEmpty_iff, List.any_eq_true,
    List.isPrefixOf_iff_prefix, leadsOn_iff, or_assoc]

/-- What a folder is in is a folder. -/
theorem isFolder_of_prefix (h : t.isFolder l = true) (hl : l' <+: l) : t.isFolder l' = true := by
  rw [isFolder_iff] at h ⊢
  rcases h with rfl | ⟨place, hplace, hle⟩ | ⟨place, hplace, hle, hne⟩
  · exact .inl (List.prefix_nil.1 hl)
  · exact .inr (.inl ⟨place, hplace, hl.trans hle⟩)
  · refine .inr (.inr ⟨place, hplace, hl.trans hle, ?_⟩)
    rintro rfl
    exact hne (hle.eq_of_length_le hl.length_le)

/-- What a file is in is a folder. -/
theorem isFolder_of_isFile (h : t.isFile (l ++ l') = true) (hl' : l' ≠ []) :
    t.isFolder l = true := by
  refine isFolder_iff.2 (.inr (.inr ⟨l ++ l', isFile_iff.1 h, List.prefix_append l l', ?_⟩))
  exact fun heq => hl' (List.self_eq_append_right.1 heq)

/-- A folder of the tree leads to some place of it, or is its root. -/
theorem exists_place_of_isFolder (h : t.isFolder l = true) :
    l = [] ∨ ∃ place ∈ t.files.keys ++ t.folders, l <+: place := by
  rcases isFolder_iff.1 h with rfl | ⟨place, hplace, hle⟩ | ⟨place, hplace, hle, -⟩
  · exact .inl rfl
  · exact .inr ⟨place, List.mem_append_right _ hplace, hle⟩
  · exact .inr ⟨place, List.mem_append_left _ hplace, hle⟩

/-- Putting a file in a folder makes no folder. -/
theorem isFolder_put (h : t.isFolder l = true) (n : String) (content : ByteArray)
    (l' : Location) : (t.put (l ++ [n]) content).isFolder l' = t.isFolder l' := by
  rw [Bool.eq_iff_iff]
  constructor
  · intro hput
    rcases isFolder_iff.1 hput with rfl | hfolder | ⟨place, hplace, hle, hne⟩
    · exact isFolder_iff.2 (.inl rfl)
    · exact isFolder_iff.2 (.inr (.inl hfolder))
    · rcases Entries.mem_keys_insert.1 hplace with rfl | hplace
      · exact isFolder_of_prefix h ((List.prefix_concat_iff.1 hle).resolve_left hne)
      · exact isFolder_iff.2 (.inr (.inr ⟨place, hplace, hle, hne⟩))
  · intro hfolder
    rcases isFolder_iff.1 hfolder with rfl | hfolder | ⟨place, hplace, hle, hne⟩
    · exact isFolder_iff.2 (.inl rfl)
    · exact isFolder_iff.2 (.inr (.inl hfolder))
    · exact isFolder_iff.2 (.inr (.inr ⟨place, Entries.mem_keys_insert.2 (.inr hplace), hle, hne⟩))

namespace IsProper

/-- The names on the way to a folder are ones that a file can have. -/
theorem isName (ht : t.IsProper) (h : t.isFolder l = true) {n : String} (hn : n ∈ l) :
    IsName n := by
  rcases exists_place_of_isFolder h with rfl | ⟨place, hplace, hle⟩
  · cases hn
  · exact ht.names place hplace n (hle.subset hn)

/-- In a proper tree no place is both a file and a folder. -/
theorem isApart (ht : t.IsProper) : t.IsApart := fun l h => ht.apart l (isFile_iff.1 h)

end IsProper

/-- In such a tree a folder is no file. -/
theorem IsApart.isFile_eq_false (ht : t.IsApart) (h : t.isFolder l = true) :
    t.isFile l = false := by
  rw [Bool.eq_false_iff]
  intro hfile
  rw [ht l hfile] at h
  cases h

/-- So it is when a file is put where no folder is. -/
theorem IsApart.put (ht : t.IsApart) (h : t.isFolder l = true) {n : String}
    (hfree : t.isFolder (l ++ [n]) = false) (content : ByteArray) :
    (t.put (l ++ [n]) content).IsApart := by
  intro place hfile
  rw [isFolder_put h]
  rcases Entries.mem_keys_insert.1 (isFile_iff.1 hfile) with rfl | hfile
  · exact hfree
  · exact ht place (isFile_iff.2 hfile)

/-! ## Last names -/

/-- The last name of a place in a folder is the one that it has there. -/
theorem lastName_append (l : Location) (n : String) : lastName (l ++ [n]) = n := by
  rw [lastName, List.getLast?_append]
  rfl

/-- It is the last name seen from any folder above it. -/
theorem lastName_drop (h : leadsOn l l' = true) : lastName (l'.drop l.length) = lastName l' := by
  obtain ⟨⟨way, rfl⟩, hne⟩ := leadsOn_iff.1 h
  have hway : way ≠ [] := fun hnil => hne (by rw [hnil, List.append_nil])
  rw [List.drop_left, lastName, lastName, List.getLast?_append_of_ne_nil _ hway]

/-! ## Paths to folders -/

/-- The path of a folder is no longer than the paths into it. -/
theorem utf8ByteSize_intercalate_le (h : l <+: l') :
    ("/".intercalate l).utf8ByteSize ≤ ("/".intercalate l').utf8ByteSize := by
  obtain ⟨more, rfl⟩ := h
  by_cases hl : l = []
  · simp [hl]
  · by_cases hmore : more = []
    · simp [hmore]
    · rw [String.intercalate_append_of_ne_nil hl hmore, String.utf8ByteSize_append,
        String.utf8ByteSize_append]
      omega

/-- How a place is written as a path. -/
theorem toText_root (l : Location) : (Path.mk .root l).toText = "/" ++ "/".intercalate l := rfl

/-- The folders of a proper tree have paths that the file system takes. -/
theorem IsProper.utf8ByteSize_le (ht : t.IsProper) (h : t.isFolder l = true) :
    (Path.mk .root l).toText.utf8ByteSize ≤ longestPath := by
  rcases exists_place_of_isFolder h with rfl | ⟨place, hplace, hle⟩
  · decide
  · refine Nat.le_trans ?_ (ht.paths place hplace)
    rw [toText_root, toText_root, String.utf8ByteSize_append, String.utf8ByteSize_append]
    exact Nat.add_le_add_left (utf8ByteSize_intercalate_le hle) _

/-- Going on through names that do not lead back ends below where it started, and goes through
folders only. -/
theorem go_eq_ok {ns : List String} {place : Location} (hns : ".." ∉ ns)
    (h : t.go l ns = .ok place) : place = l ++ ns := by
  induction ns generalizing l with
  | nil =>
    cases h
    exact (List.append_nil place).symm
  | cons n ns ih =>
    obtain ⟨hn, hns⟩ := not_or.1 (mt List.mem_cons.2 hns)
    rw [go] at h
    split_ifs at h with hfolder hlong hup
    · exact absurd hup.symm hn
    · rw [ih hns h, List.append_assoc]
      rfl

/-- A walk along the names of a folder leads to it. -/
theorem go_of_isFolder {ns : List String} (h : t.isFolder (l ++ ns) = true)
    (hns : ∀ n ∈ ns, IsName n) : t.go l ns = .ok (l ++ ns) := by
  induction ns generalizing l with
  | nil => rw [go, List.append_nil]
  | cons n ns ih =>
    obtain ⟨hn, hns⟩ := List.forall_mem_cons.1 hns
    have hl : t.isFolder l = true := isFolder_of_prefix h (List.prefix_append _ _)
    rw [go, if_neg (by simp [hl]), if_neg (Nat.not_lt.2 hn.short), if_neg hn.ne_up,
      ih (by rwa [List.append_assoc]) hns, List.append_assoc]
    rfl

/-- A walk can be interrupted anywhere. -/
theorem go_append (t : Tree) (l : Location) (ns ns' : List String) :
    t.go l (ns ++ ns') = t.go l ns >>= fun l' => t.go l' ns' := by
  induction ns generalizing l with
  | nil => rfl
  | cons n ns ih =>
    rw [List.cons_append, go, go]
    by_cases hfolder : !t.isFolder l
    · rw [if_pos hfolder, if_pos hfolder]
      rfl
    · by_cases hlong : longestName < n.utf8ByteSize
      · rw [if_neg hfolder, if_pos hlong, if_neg hfolder, if_pos hlong]
        rfl
      · rw [if_neg hfolder, if_neg hlong, if_neg hfolder, if_neg hlong]
        exact ih _

/-- A path through a last name that does not lead back leads to something of that name. -/
theorem lastName_of_locate {p : Path} (hne : p.names ≠ []) (hup : p.name ≠ "..")
    (h : t.locate p = .ok l) : lastName l = p.name := by
  rw [locate] at h
  obtain ⟨ns, hns, hgo⟩ := Except.bind_eq_ok h
  obtain rfl : ns = p.names := by
    rw [namesOf] at hns
    split_ifs at hns
    exact (Except.ok.inj hns).symm
  rw [← congrArg Path.names (Path.entry_parent hne), Path.names_entry, go_append] at hgo
  obtain ⟨l', -, hlast⟩ := Except.bind_eq_ok hgo
  rw [go] at hlast
  split_ifs at hlast
  obtain rfl := Except.ok.inj hlast
  exact lastName_append l' p.name

/-- A path can be looked at if it is short enough and goes through names. -/
theorem namesOf_eq_ok (hnames : ∀ n ∈ l, IsName n)
    (hshort : (Path.mk .root l).toText.utf8ByteSize ≤ longestPath) :
    namesOf ⟨.root, l⟩ = .ok l := by
  have hwhole : l.any isBroken = false := by
    rw [List.any_eq_false]
    exact fun n hn => by simp [(hnames n hn).whole]
  rw [namesOf, if_neg (by simp [hwhole]), if_neg (Nat.not_lt.2 hshort)]

/-- The path of a folder can be looked at. -/
theorem namesOf_of_isFolder (ht : t.IsProper) (h : t.isFolder l = true) :
    namesOf ⟨.root, l⟩ = .ok l :=
  namesOf_eq_ok (fun _ hn => ht.isName h hn) (ht.utf8ByteSize_le h)

/-- The path of a folder leads to it. -/
theorem locate_of_isFolder (ht : t.IsProper) (h : t.isFolder l = true) :
    t.locate ⟨.root, l⟩ = .ok l := by
  rw [locate, namesOf_of_isFolder ht h]
  exact go_of_isFolder h fun n hn => ht.isName h hn

/-- A folder of a proper tree is seen to be one by its path. -/
theorem hasFolder_of_isFolder (ht : t.IsProper) (h : t.isFolder l = true) :
    t.hasFolder ⟨.root, l⟩ = .ok true := by
  rw [hasFolder, holdsAt, locate_of_isFolder ht h]
  exact congrArg Except.ok h

/-- A walk can go into any folder of a proper tree, whose path is not too long. -/
theorem fits_of_isFolder (ht : t.IsProper) (h : t.isFolder l = true) : fits ⟨.root, l⟩ = true := by
  have hshort : (l.all fun n => decide (n.utf8ByteSize ≤ longestName)) = true :=
    List.all_eq_true.2 fun n hn => decide_eq_true (ht.isName h hn).short
  rw [fits, namesOf_of_isFolder ht h, hshort]
  rfl

/-- The path to a file leads to it. -/
theorem locate_of_isFile (ht : t.IsProper) {n : String} (h : t.isFile (l ++ [n]) = true) :
    t.locate (Path.entry ⟨.root, l⟩ n) = .ok (l ++ [n]) := by
  have hmem : l ++ [n] ∈ t.files.keys ++ t.folders := List.mem_append_left _ (isFile_iff.1 h)
  have hnames := ht.names _ hmem
  have hfolder : t.isFolder l = true := isFolder_of_isFile h (by simp)
  have hn : IsName n := hnames n (by simp)
  have hgo : t.go [] l = .ok l :=
    go_of_isFolder hfolder fun m hm => hnames m (List.mem_append_left _ hm)
  rw [locate, show namesOf (Path.entry ⟨.root, l⟩ n) = .ok (l ++ [n]) from
    namesOf_eq_ok hnames (ht.paths _ hmem)]
  change t.go [] (l ++ [n]) = _
  rw [go_append, hgo]
  change t.go l [n] = _
  rw [go, if_neg (by simp [hfolder]), if_neg (Nat.not_lt.2 hn.short), if_neg hn.ne_up, go]

/-- What is in a folder has a resolved path, unless its name means the folder above. -/
theorem isResolved_entry (ht : t.IsProper) (h : t.isFolder l = true) {n : String} (hn : n ≠ "..") :
    (Path.entry ⟨.root, l⟩ n).IsResolved := by
  refine ⟨rfl, ?_⟩
  rw [Path.names_entry, List.mem_append, List.mem_singleton, not_or]
  exact ⟨fun hmem => (ht.isName h hmem).ne_up rfl, Ne.symm hn⟩

/-- Resolving a path, if that can be done, only takes out the steps back. -/
theorem eq_settled_of_resolved {base p q : Path} (h : base.resolved p = .ok q) :
    q = base.settled p := by
  rw [Path.resolved] at h
  split_ifs at h
  exact (Except.ok.inj h).symm

/-- Whatever a path is resolved against, what comes out is resolved: it has no steps back. -/
theorem isResolved_of_resolved {base p q : Path} (h : base.resolved p = .ok q) : q.IsResolved :=
  eq_settled_of_resolved h ▸ Path.isResolved_settled base p

/-- A path can be resolved if it holds no null character. -/
theorem exists_resolved_iff {base p : Path} : (∃ q, base.resolved p = .ok q) ↔
    ∀ n ∈ (base.join p).names, '\x00' ∉ n.toList := by
  have hbroken : ((base.join p).names.any isBroken = true) ↔
      ¬∀ n ∈ (base.join p).names, '\x00' ∉ n.toList := by
    simp [isBroken]
  rw [Path.resolved]
  split
  · next h => simp [hbroken.1 h]
  · next h => simpa using hbroken.not.1 h

/-- A resolved path that leads somewhere leads to where its names say. -/
theorem locate_eq_ok {p : Path} (hp : p.IsResolved) {place : Location}
    (h : t.locate p = .ok place) : place = p.names := by
  rw [locate, namesOf] at h
  split_ifs at h with hbroken hlong
  · cases h
  · cases h
  · exact go_eq_ok hp.2 h

/-- What may be asked of a path cannot be told only if a name, or the path, is too long. -/
theorem holdsAt_eq_error {p : Path} {holds : Location → Bool} {e : FileFault}
    (h : t.holdsAt p holds = .error e) : e = .tooLong := by
  rw [holdsAt] at h
  split at h <;> cases h
  rfl

/-- What holds of where a path leads holds of a place. -/
theorem exists_of_holdsAt {p : Path} {holds : Location → Bool} (h : t.holdsAt p holds = .ok true) :
    ∃ l, t.locate p = .ok l ∧ holds l = true := by
  rw [holdsAt] at h
  split at h
  · next l hl => exact ⟨l, hl, Except.ok.inj h⟩
  · cases h
  · cases h

/-- A path to a folder leads to the place of one. -/
theorem exists_of_hasFolder {p : Path} (h : t.hasFolder p = .ok true) :
    ∃ l, t.locate p = .ok l ∧ t.isFolder l = true :=
  exists_of_holdsAt h

/-- What is there cannot be read as text if it is a folder, or if its bytes are none. -/
theorem readText_eq_error {p : Path} {e : FileFault} (hhas : t.has p = .ok true)
    (h : t.readText p = .error e) : e = .isFolder ∨ e = .notText := by
  obtain ⟨l, hl, hthere⟩ := exists_of_holdsAt hhas
  rcases Except.bind_eq_error h with hread | ⟨content, -, htext⟩
  · rw [read, Except.bind_of_ok hl] at hread
    split at hread
    · cases hread
    · next hnone =>
      rw [isFile_eq_isSome, hnone] at hthere
      rw [if_pos (by simpa using hthere)] at hread
      exact .inl (Except.error.inj hread).symm
  · split at htext
    · cases htext
    · exact .inr (Except.error.inj htext).symm

/-- A resolved path that can be read is that of a file. -/
theorem isFile_of_readText {p : Path} (hp : p.IsResolved) {text : String}
    (h : t.readText p = .ok text) : t.isFile p.names = true := by
  obtain ⟨content, hread, -⟩ := Except.bind_eq_ok h
  obtain ⟨place, hplace, hread⟩ := Except.bind_eq_ok hread
  rw [← locate_eq_ok hp hplace]
  split at hread
  · next hget => exact isFile_of_get? hget
  · cases hread

/-- A file is among the names in its folder. -/
theorem mem_names_of_isFile {n : String} (h : t.isFile (l ++ [n]) = true) : n ∈ t.names l := by
  rw [names, List.mem_eraseDups, List.mem_filterMap]
  refine ⟨l ++ [n], List.mem_append_left _ (isFile_iff.1 h), ?_⟩
  rw [nameWithin?, if_pos (List.isPrefixOf_iff_prefix.2 (List.prefix_append l [n])),
    List.drop_left]
  rfl

/-- The names of files in a folder are those that lead to files. -/
@[simp] theorem mem_fileNames {n : String} : n ∈ t.fileNames l ↔ t.isFile (l ++ [n]) = true := by
  rw [fileNames, Text.mem_sorted, List.mem_filter]
  exact ⟨And.right, fun h => ⟨mem_names_of_isFile h, h⟩⟩

/-- No file is named twice. -/
theorem nodup_fileNames (t : Tree) (l : Location) : (t.fileNames l).Nodup := by
  rw [fileNames]
  exact (Text.sorted_perm _).nodup_iff.2 ((nodup_eraseDups _).filter _)

end Tree

end BuildFiles
