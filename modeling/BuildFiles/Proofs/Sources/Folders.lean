import BuildFiles.Proofs.Computation
import BuildFiles.Proofs.Tree

/-!
# The folders that are found

A folder is found below a root if a walk comes through it to a file, and in a proper tree that is so
if it leads to a file whose own folder is not ignored: `mem_foldersOf`. So between a folder that is
found and a file below it that is not ignored, every folder is found, whichever root either was
found from: `IsFound.join_mem_folders`.
-/

namespace BuildFiles

variable {t : Tree} {ignored : List Path} {root folder p : Path}

/-- What lies in an ignored folder is ignored. -/
theorem Path.isIgnored_of_isWithin {q : Path} (h : p.isWithin q = true)
    (hq : q.isIgnored ignored = true) : p.isIgnored ignored = true := by
  rw [isIgnored, List.any_eq_true] at hq ⊢
  obtain ⟨i, hi, hqi⟩ := hq
  exact ⟨i, hi, isWithin_trans h hqi⟩

/-- What is above a path that is not ignored is not ignored. -/
theorem Path.isIgnored_eq_false {q : Path} (h : p.isWithin q = true)
    (hp : p.isIgnored ignored = false) : q.isIgnored ignored = false := by
  rw [Bool.eq_false_iff] at hp ⊢
  exact fun hq => hp (isIgnored_of_isWithin h hq)

namespace Sources

/-! ## From one root -/

/-- The stops on a way are its beginnings, without the empty one. -/
theorem mem_stops {way stop : Location} : stop ∈ Tree.stops way ↔ stop ≠ [] ∧ stop <+: way := by
  induction way generalizing stop with
  | nil =>
    refine ⟨nofun, fun h => absurd (List.prefix_nil.1 h.2) h.1⟩
  | cons n way ih =>
    rw [Tree.stops, List.mem_cons, List.mem_map]
    constructor
    · rintro (rfl | ⟨stop, hstop, rfl⟩)
      · exact ⟨List.cons_ne_nil n [], List.cons_prefix_cons.2 ⟨rfl, List.nil_prefix⟩⟩
      · exact ⟨List.cons_ne_nil n stop, List.cons_prefix_cons.2 ⟨rfl, (ih.1 hstop).2⟩⟩
    · rintro ⟨hne, hle⟩
      cases stop with
      | nil => exact absurd rfl hne
      | cons m stop =>
        obtain ⟨rfl, hstop⟩ := List.cons_prefix_cons.1 hle
        by_cases hnil : stop = []
        · exact .inl (by rw [hnil])
        · exact .inr ⟨stop, ih.2 ⟨hnil, hstop⟩, rfl⟩

/-- The stops on a way that goes on are those of the first part, and then those of the second. -/
theorem stops_append (way more : Location) :
    Tree.stops (way ++ more) = Tree.stops way ++ (Tree.stops more).map (way ++ ·) := by
  induction way with
  | nil => simp [Tree.stops]
  | cons n way ih => simp [Tree.stops, ih]

/-- The files below a place, by the way that leads to them. -/
theorem mem_filesBelow {l way : Location} :
    way ∈ t.filesBelow l ↔ way ≠ [] ∧ t.isFile (l ++ way) = true := by
  rw [Tree.filesBelow, List.mem_map]
  constructor
  · rintro ⟨file, hfile, rfl⟩
    obtain ⟨hkey, hleads⟩ := List.mem_filter.1 hfile
    obtain ⟨⟨way, rfl⟩, hne⟩ := Tree.leadsOn_iff.1 hleads
    rw [List.drop_left]
    refine ⟨?_, Tree.isFile_iff.2 hkey⟩
    rintro rfl
    exact hne (List.append_nil l).symm
  · rintro ⟨hne, hfile⟩
    refine ⟨l ++ way, List.mem_filter.2 ⟨Tree.isFile_iff.1 hfile, ?_⟩, List.drop_left⟩
    refine Tree.leadsOn_iff.2 ⟨List.prefix_append l way, fun h => hne ?_⟩
    exact List.self_eq_append_right.1 h

/-- A walk comes to the files that lie in folders which it goes into, one after the other. -/
theorem mem_filesWalked {keeps : Path → Bool} {l way : Location} :
    way ∈ t.filesWalked keeps folder l ↔ way ≠ [] ∧ t.isFile (l ++ way) = true ∧
      ∀ stop ∈ Tree.stops way.dropLast, Tree.walksInto keeps folder stop = true := by
  rw [Tree.filesWalked, List.mem_filter, mem_filesBelow, List.all_eq_true, and_assoc]

/-- The walk for folders goes into the one at the end of the way. -/
abbrev enters (ignored : List Path) (root : Path) (way : Location) : Bool :=
  Tree.walksInto (fun p => !p.isIgnored ignored) root way

/-- A folder that is entered is not ignored. -/
theorem isIgnored_of_enters {way : Location} (h : enters ignored root way = true) :
    (root.join (.ofNames way)).isIgnored ignored = false := by
  simpa using (Bool.and_eq_true_iff.1 h).1

/-- The folders of a root that leads to a place are the root itself and those on the way to a file
that the walk comes to. -/
theorem mem_foldersOf_of_locate {l : Location} (hlocate : t.locate root = .ok l) :
    p ∈ foldersOf t ignored root ↔
      t.isFolder l = true ∧ root.isIgnored ignored = false ∧
        (p = root ∨ ∃ way more n, way ≠ [] ∧ p = root.join (.ofNames way) ∧
          t.isFile (l ++ (way ++ more ++ [n])) = true ∧
          ∀ stop ∈ Tree.stops (way ++ more), enters ignored root stop = true) := by
  rw [foldersOf, hlocate]
  by_cases hfolder : t.isFolder l = true
  · by_cases hignored : root.isIgnored ignored = true
    · simp [hignored]
    · rw [Bool.not_eq_true] at hignored
      simp only [hfolder, hignored, Bool.not_true, Bool.or_self, Bool.false_eq_true, if_false,
        true_and, List.mem_cons, List.mem_map, List.mem_flatMap, mem_stops, mem_filesWalked]
      refine or_congr Iff.rfl ⟨?_, ?_⟩
      · rintro ⟨stop, ⟨holder, ⟨way, ⟨hne, hfile, hentered⟩, rfl⟩, hstop, more, hmore⟩, rfl⟩
        refine ⟨stop, more, way.getLast hne, hstop, rfl, ?_, ?_⟩
        · rwa [hmore, List.dropLast_concat_getLast]
        · rwa [hmore]
      · rintro ⟨way, more, n, hne, rfl, hfile, hentered⟩
        exact ⟨way, ⟨way ++ more, ⟨way ++ more ++ [n], ⟨by simp, hfile, by simpa using hentered⟩,
          by simp⟩, hne, List.prefix_append way more⟩, rfl⟩
  · simp [hfolder]

/-- In a proper tree a walk from a resolved root goes into the folders that are not ignored. -/
theorem enters_eq (ht : t.IsProper) (hroot : root.IsResolved) {way : Location}
    (hfolder : t.isFolder (root.names ++ way) = true) :
    enters ignored root way = !(root.join (.ofNames way)).isIgnored ignored := by
  obtain ⟨anchor, names⟩ := root
  obtain rfl : anchor = .root := hroot.1
  have hpath : Tree.walkedPath ⟨.root, names⟩ way = ⟨.root, names ++ way⟩ := by
    rw [Tree.walkedPath, if_neg (by simp [Path.ofNames])]
    rfl
  rw [enters, Tree.walksInto, hpath, Tree.fits_of_isFolder ht hfolder, Bool.and_true]

/-- A resolved root leads to the place that its names say, if it leads anywhere; and of the folders
on the way to a file, none is ignored if the last one is not. -/
theorem mem_foldersOf (ht : t.IsProper) (hroot : root.IsResolved) :
    p ∈ foldersOf t ignored root ↔
      t.isFolder root.names = true ∧ root.isIgnored ignored = false ∧
        (p = root ∨ ∃ way more n, way ≠ [] ∧ p = root.join (.ofNames way) ∧
          t.isFile (root.names ++ (way ++ more ++ [n])) = true ∧
          (root.join (.ofNames (way ++ more))).isIgnored ignored = false) := by
  rcases hlocate : t.locate root with e | l
  · have hfolder : ¬t.isFolder root.names = true := by
      intro hfolder
      obtain ⟨anchor, names⟩ := root
      obtain rfl : anchor = .root := hroot.1
      exact nomatch (Tree.locate_of_isFolder ht hfolder).symm.trans hlocate
    rw [foldersOf, hlocate]
    exact ⟨nofun, fun h => absurd h.1 hfolder⟩
  · obtain rfl := Tree.locate_eq_ok hroot hlocate
    rw [mem_foldersOf_of_locate hlocate]
    refine and_congr_right fun _ => and_congr_right fun _ => or_congr_right ?_
    refine exists_congr fun way => exists_congr fun more => exists_congr fun n =>
      and_congr_right fun hne => and_congr_right fun _ => and_congr_right fun hfile => ?_
    have hholder : way ++ more ∈ Tree.stops (way ++ more) :=
      mem_stops.2 ⟨by simp [hne], List.prefix_rfl⟩
    refine ⟨fun h => isIgnored_of_enters (h _ hholder), fun hkept stop hstop => ?_⟩
    obtain ⟨-, after, hafter⟩ := mem_stops.1 hstop
    have hfolder : t.isFolder (root.names ++ stop) = true := by
      rw [← hafter, List.append_assoc, ← List.append_assoc] at hfile
      exact Tree.isFolder_of_isFile hfile (by simp)
    have hwithin :
        (root.join (.ofNames (way ++ more))).isWithin (root.join (.ofNames stop)) = true :=
      Path.isWithin_iff.2 ⟨rfl, after, by simp [Path.join_ofNames, hafter]⟩
    rw [enters_eq ht hroot hfolder, Path.isIgnored_eq_false hwithin hkept]
    rfl

/-! ## From all roots -/

/-- The roots are resolved if the folders of sources are. -/
theorem isResolved_of_mem_roots {b : Basis} (h : ∀ e ∈ b.sourceEntries, e.path.IsResolved) :
    ∀ root ∈ roots (b.sourceEntries.map (·.path)) ignored, root.IsResolved := by
  intro root hroot
  obtain ⟨e, he, rfl⟩ := List.mem_map.1 (List.mem_of_mem_filter (List.mem_eraseDups.1 hroot))
  exact h e he

/-- The folders are found from some root. -/
theorem mem_folders {roots : List Path} :
    p ∈ folders t roots ignored ↔ ∃ root ∈ roots, p ∈ foldersOf t ignored root := by
  rw [folders, List.mem_mergeSort, List.mem_eraseDups, List.mem_flatMap]

/-- None is found twice, though roots may be inside of each other. -/
theorem nodup_folders (t : Tree) (roots ignored : List Path) :
    (folders t roots ignored).Nodup :=
  (List.mergeSort_perm _ _).nodup_iff.2 (nodup_eraseDups _)

/-- What is found from a root is within it. -/
theorem isWithin_of_mem_foldersOf (ht : t.IsProper) (hroot : root.IsResolved)
    (hp : p ∈ foldersOf t ignored root) : p.isWithin root = true := by
  obtain ⟨-, -, rfl | ⟨way, more, n, -, rfl, -, -⟩⟩ := (mem_foldersOf ht hroot).1 hp
  · exact Path.isWithin_refl p
  · exact Path.isWithin_iff_join.2 ⟨way, rfl⟩

/-- A folder that is found is one, below a root. -/
theorem exists_root_of_mem_folders (ht : t.IsProper) {roots : List Path}
    (hroots : ∀ root ∈ roots, root.IsResolved) (hp : p ∈ folders t roots ignored) :
    ∃ root ∈ roots, p.isWithin root = true ∧ t.isFolder p.names = true := by
  obtain ⟨root, hroot, hmem⟩ := mem_folders.1 hp
  obtain ⟨hroot', -, rfl | ⟨way, more, n, hway, rfl, hfile, -⟩⟩ :=
    (mem_foldersOf ht (hroots root hroot)).1 hmem
  · exact ⟨p, hroot, Path.isWithin_refl p, hroot'⟩
  · refine ⟨root, hroot, Path.isWithin_iff.2 ⟨rfl, List.prefix_append _ _⟩, ?_⟩
    rw [List.append_assoc way, ← List.append_assoc] at hfile
    exact Tree.isFolder_of_isFile hfile (by simp)

/-- What is found is a folder of the tree. -/
theorem placed_of_mem_folders (ht : t.IsProper) {roots : List Path}
    (hroots : ∀ root ∈ roots, root.IsResolved) (hp : p ∈ folders t roots ignored) :
    p.anchor = .root ∧ t.isFolder p.names = true := by
  obtain ⟨root, hroot, hwithin, hfolder⟩ := exists_root_of_mem_folders ht hroots hp
  exact ⟨(Path.isWithin_iff.1 hwithin).1.trans (hroots root hroot).1, hfolder⟩

/-- What is found is not ignored. -/
theorem isIgnored_of_mem_folders (ht : t.IsProper) {roots : List Path}
    (hroots : ∀ root ∈ roots, root.IsResolved) (hp : p ∈ folders t roots ignored) :
    p.isIgnored ignored = false := by
  obtain ⟨root, hroot, hmem⟩ := mem_folders.1 hp
  obtain ⟨-, hkept, rfl | ⟨way, more, n, -, rfl, -, hholder⟩⟩ :=
    (mem_foldersOf ht (hroots root hroot)).1 hmem
  · exact hkept
  · have hwithin :
        (root.join (.ofNames (way ++ more))).isWithin (root.join (.ofNames way)) = true :=
      Path.isWithin_iff.2 ⟨rfl, more, by simp [Path.join_ofNames]⟩
    exact Path.isIgnored_eq_false hwithin hholder

/-- Putting the deeper path first is a transitive order. -/
theorem deeperFirst_trans (a b c : Path) (hab : deeperFirst a b = true)
    (hbc : deeperFirst b c = true) : deeperFirst a c = true := by
  simp only [deeperFirst, Bool.or_eq_true, Bool.and_eq_true, decide_eq_true_eq, beq_iff_eq]
    at hab hbc ⊢
  rcases hab with hab | ⟨hab, htext⟩ <;> rcases hbc with hbc | ⟨hbc, htext'⟩
  · exact .inl (by omega)
  · exact .inl (by omega)
  · exact .inl (by omega)
  · exact .inr ⟨by omega, String.le_trans htext htext'⟩

/-- Any two paths are in that order one way or the other. -/
theorem deeperFirst_total (a b : Path) : (deeperFirst a b || deeperFirst b a) = true := by
  simp only [deeperFirst, Bool.or_eq_true, Bool.and_eq_true, decide_eq_true_eq, beq_iff_eq]
  rcases String.le_total a.toText b.toText with htext | htext
  · by_cases hlength : a.steps.length = b.steps.length
    · exact .inl (.inr ⟨hlength, htext⟩)
    · omega
  · by_cases hlength : a.steps.length = b.steps.length
    · exact .inr (.inr ⟨hlength.symm, htext⟩)
    · omega

/-- The folders are listed from the deepest up. -/
theorem pairwise_folders (t : Tree) (roots ignored : List Path) :
    (folders t roots ignored).Pairwise fun a b => deeperFirst a b = true :=
  List.pairwise_mergeSort deeperFirst_trans deeperFirst_total _

/-- If no root is refused, then the folders are found as described. -/
theorem foldersFound_eq_ok {roots found : List Path}
    (h : foldersFound t roots ignored = .ok found) : found = folders t roots ignored := by
  obtain ⟨_, -, hpure⟩ := Except.bind_eq_ok h
  exact (Except.ok.inj hpure).symm

/-- The folders are found if all roots can be looked for. -/
theorem foldersFound_of_hasFolder {roots : List Path}
    (h : ∀ root ∈ roots, ∃ there, t.hasFolder root = .ok there) :
    foldersFound t roots ignored = .ok (folders t roots ignored) := by
  have hall : (forM roots fun root => do
      let _ ← (t.hasFolder root).mapError Fault.file) = Except.ok () := by
    induction roots with
    | nil => rfl
    | cons root roots ih =>
      obtain ⟨⟨there, hthere⟩, hroots⟩ := List.forall_mem_cons.1 h
      rw [List.forM_cons, hthere]
      exact ih hroots
  rw [foldersFound]
  exact congrArg (· >>= fun _ => pure (folders t roots ignored)) hall

/-- The layout is made of the folders that were found from the roots, which are resolved and lie in
the folder that labels are taken from, and of source paths that are texts. The root of the file
system is not one of the roots, as it lies in itself. -/
structure Layout.IsFound (l : Layout) (t : Tree) (roots : List Path) : Prop where
  proper : t.IsProper
  placed : ∀ root ∈ roots, root.IsResolved ∧ root.isWithin l.base = true ∧ root.names ≠ []
  found : foldersFound t roots l.ignored = .ok l.folders
  texts : ∀ d ∈ l.sourcePaths, ∃ s, d = .str s

namespace Layout.IsFound

variable {l : Layout} {roots : List Path}

/-- What a layout lists is found from some root. -/
theorem mem_folders (h : l.IsFound t roots) :
    p ∈ l.folders ↔ ∃ root ∈ roots, p ∈ foldersOf t l.ignored root := by
  rw [foldersFound_eq_ok h.found, Sources.mem_folders]

/-- No folder is listed twice. -/
theorem nodup_folders (h : l.IsFound t roots) : l.folders.Nodup := by
  rw [foldersFound_eq_ok h.found]
  exact Sources.nodup_folders t roots l.ignored

/-- What is listed is a folder of the tree within some root. -/
theorem exists_root (h : l.IsFound t roots) (hfolder : folder ∈ l.folders) :
    ∃ root ∈ roots, folder.isWithin root = true ∧ t.isFolder folder.names = true := by
  rw [foldersFound_eq_ok h.found] at hfolder
  exact exists_root_of_mem_folders h.proper (fun root hroot => (h.placed root hroot).1) hfolder

/-- It is listed by a path from the root of the tree. -/
theorem anchor_eq (h : l.IsFound t roots) (hfolder : folder ∈ l.folders) :
    folder.anchor = .root := by
  obtain ⟨root, hroot, hwithin, -⟩ := h.exists_root hfolder
  exact (Path.isWithin_iff.1 hwithin).1.trans (h.placed root hroot).1.1

/-- What is listed is a folder of the tree. -/
theorem isFolder (h : l.IsFound t roots) (hfolder : folder ∈ l.folders) :
    t.isFolder folder.names = true := by
  obtain ⟨root, -, -, hisFolder⟩ := h.exists_root hfolder
  exact hisFolder

/-- It is within the folder that all roots are in. -/
theorem isWithin_base (h : l.IsFound t roots) (hfolder : folder ∈ l.folders) :
    folder.isWithin l.base = true := by
  obtain ⟨root, hroot, hwithin, -⟩ := h.exists_root hfolder
  exact Path.isWithin_trans hwithin (h.placed root hroot).2.1

end Layout.IsFound

end Sources

end BuildFiles
