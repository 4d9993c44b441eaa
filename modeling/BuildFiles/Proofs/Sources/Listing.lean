import BuildFiles.Proofs.Sources.Folders

/-!
# The list of folders

What a walk from the roots would come to. A folder is listed for a root if it is the root, or lies
below it on a way that goes into no ignored folder and into none whose path is too long, and some
file can be reached from it in the same manner (`IsListedFor`); these and no others are found:
`mem_foldersOf_iff`. The list has each of them once and each before the folders that it is in, and
with a folder below a root it has the folder's parent, so it can be gone through from the deepest
up: `foldersFound_isListing`.
-/

namespace BuildFiles.Sources

variable {t : Tree} {ignored roots found : List Path} {root folder p : Path} {l way : Location}

/-! ## What leads to a file -/

/-- A file lies in the folder at the end of the way from the root, or below it where a walk goes
into each folder that is on the way. -/
inductive LeadsToFile (t : Tree) (ignored : List Path) (root : Path) (l : Location) :
    Location → Prop
  | here {way : Location} {n : String} (hfile : t.isFile (l ++ way ++ [n]) = true) :
      LeadsToFile t ignored root l way
  | further {way : Location} {n : String} (hentered : enters ignored root (way ++ [n]) = true)
      (hleads : LeadsToFile t ignored root l (way ++ [n])) : LeadsToFile t ignored root l way

/-- What leads to a file has one below, past folders that the walk goes into. -/
theorem leadsToFile_iff : LeadsToFile t ignored root l way ↔
    ∃ more n, t.isFile (l ++ (way ++ more ++ [n])) = true ∧
      ∀ stop ∈ Tree.stops more, enters ignored root (way ++ stop) = true := by
  constructor
  · intro h
    induction h with
    | @here way n hfile => exact ⟨[], n, by simpa using hfile, nofun⟩
    | @further way n hentered _ ih =>
      obtain ⟨more, n', hfile, hstops⟩ := ih
      refine ⟨n :: more, n', by simpa using hfile, List.forall_mem_cons.2 ⟨hentered, ?_⟩⟩
      exact List.forall_mem_map.2 fun stop hstop => by simpa using hstops stop hstop
  · rintro ⟨more, n, hfile, hstops⟩
    induction more generalizing way with
    | nil => exact .here (by simpa using hfile)
    | cons m more ih =>
      obtain ⟨hentered, hstops⟩ := List.forall_mem_cons.1 hstops
      refine .further hentered (ih (by simpa using hfile) fun stop hstop => ?_)
      simpa using List.forall_mem_map.1 hstops stop hstop

/-! ## The folders of a root -/

/-- A folder is listed for a root: the root is a folder that is not ignored, and the folder is the
root itself, or it lies below, a walk goes into each folder from the root down to it, and it leads
to a file. -/
def IsListedFor (t : Tree) (ignored : List Path) (root folder : Path) : Prop :=
  ∃ l, t.locate root = .ok l ∧ t.isFolder l = true ∧ root.isIgnored ignored = false ∧
    (folder = root ∨ ∃ way, way ≠ [] ∧ folder = root.join (.ofNames way) ∧
      (∀ before, before ≠ [] → before <+: way → enters ignored root before = true) ∧
      LeadsToFile t ignored root l way)

/-- The folders that are found from a root are those that are listed for it. -/
theorem mem_foldersOf_iff : folder ∈ foldersOf t ignored root ↔
    IsListedFor t ignored root folder := by
  rcases hlocate : t.locate root with e | l
  · rw [foldersOf, hlocate]
    refine iff_of_false List.not_mem_nil ?_
    rintro ⟨l, hl, -⟩
    rw [hlocate] at hl
    cases hl
  rw [mem_foldersOf_of_locate hlocate]
  simp only [stops_append, List.forall_mem_append, List.forall_mem_map]
  constructor
  · rintro ⟨hfolder, hroot, hbelow⟩
    refine ⟨l, hlocate, hfolder, hroot, hbelow.imp_right ?_⟩
    rintro ⟨way, more, n, hway, rfl, hfile, hentered, hstops⟩
    exact ⟨way, hway, rfl, fun before hne hle => hentered before (mem_stops.2 ⟨hne, hle⟩),
      leadsToFile_iff.2 ⟨more, n, hfile, hstops⟩⟩
  · rintro ⟨l', hlocate', hfolder, hroot, hbelow⟩
    obtain rfl := Except.ok.inj (hlocate.symm.trans hlocate')
    refine ⟨hfolder, hroot, hbelow.imp_right ?_⟩
    rintro ⟨way, hway, rfl, hentered, hleads⟩
    obtain ⟨more, n, hfile, hstops⟩ := leadsToFile_iff.1 hleads
    refine ⟨way, more, n, hway, rfl, hfile, fun stop hstop => ?_, hstops⟩
    obtain ⟨hne, hle⟩ := mem_stops.1 hstop
    exact hentered stop hne hle

/-- What a folder below the root lies in is listed with it. -/
theorem IsListedFor.parent (h : IsListedFor t ignored root folder) (hne : folder ≠ root) :
    IsListedFor t ignored root folder.parent := by
  obtain ⟨l, hlocate, hfolder, hroot, hbelow⟩ := h
  obtain ⟨way, hway, rfl, hentered, hleads⟩ := hbelow.resolve_left hne
  refine ⟨l, hlocate, hfolder, hroot, ?_⟩
  obtain ⟨way, n, rfl⟩ := List.eq_nil_or_concat' way |>.resolve_left hway
  have hentry : root.join (.ofNames (way ++ [n])) = (root.join (.ofNames way)).entry n := by
    simp [Path.entry, Path.join_ofNames]
  rw [hentry, Path.parent_entry]
  by_cases hnil : way = []
  · exact .inl (by rw [hnil, Path.join_ofNames, List.append_nil])
  · refine .inr ⟨way, hnil, rfl, ?_, .further (hentered _ hway List.prefix_rfl) hleads⟩
    exact fun before hne hle => hentered before hne (hle.trans (List.prefix_append way [n]))

/-! ## The whole list -/

/-- The list is that of the folders that are listed for the roots: it has each of them once, each
before the folders that it is in, and the parent of each below its root. -/
structure IsListing (t : Tree) (roots ignored found : List Path) : Prop where
  nodup : found.Nodup
  mem_iff : ∀ folder, folder ∈ found ↔ ∃ root ∈ roots, IsListedFor t ignored root folder
  lt_of_isWithin : ∀ (i j : Nat) (folder above : Path), found[i]? = some folder →
    found[j]? = some above → folder.isWithin above = true → folder ≠ above → i < j
  parent_mem : ∀ root ∈ roots, ∀ folder, IsListedFor t ignored root folder → folder ≠ root →
    folder.parent ∈ found

/-- What lies in a folder goes through more steps. -/
theorem length_steps_lt {above : Path} (h : folder.isWithin above = true) (hne : folder ≠ above) :
    above.steps.length < folder.steps.length := by
  obtain ⟨way, rfl⟩ := Path.isWithin_iff_join.1 h
  have hway : way ≠ [] := by
    rintro rfl
    exact hne (by rw [Path.join_ofNames, List.append_nil])
  have hlength := List.length_pos_of_ne_nil hway
  have hrelative : (above.join (.ofNames way)).isRelative = above.isRelative := rfl
  rw [Path.steps, Path.steps, hrelative, Path.join_ofNames]
  split
  · rw [List.length_append]
    omega
  · rw [List.length_cons, List.length_cons, List.length_append]
    omega

theorem length_steps_le {a b : Path} (h : deeperFirst a b = true) :
    b.steps.length ≤ a.steps.length := by
  simp only [deeperFirst, Bool.or_eq_true, Bool.and_eq_true, decide_eq_true_eq, beq_iff_eq] at h
  omega

theorem folders_isListing (t : Tree) (roots ignored : List Path) :
    IsListing t roots ignored (folders t roots ignored) where
  nodup := nodup_folders t roots ignored
  mem_iff folder := by simp only [mem_folders, mem_foldersOf_iff]
  lt_of_isWithin i j folder above hi hj hwithin hne := by
    have hdeeper := length_steps_lt hwithin hne
    by_contra hle
    rcases Nat.lt_or_eq_of_le (Nat.le_of_not_lt hle) with hlt | rfl
    · -- what is listed before has as many steps at least
      obtain ⟨hj', rfl⟩ := List.getElem?_eq_some_iff.1 hj
      obtain ⟨hi', rfl⟩ := List.getElem?_eq_some_iff.1 hi
      have hbefore := List.pairwise_iff_getElem.1 (pairwise_folders t roots ignored) j i hj' hi' hlt
      have hsteps := length_steps_le hbefore
      omega
    · exact hne (Option.some.inj (hi.symm.trans hj))
  parent_mem root hroot folder hlisted hne :=
    mem_folders.2 ⟨root, hroot, mem_foldersOf_iff.2 (hlisted.parent hne)⟩

/-- Whether a path leads to a folder can be told unless the path is too long to be looked at. -/
theorem hasFolder_cases (t : Tree) (p : Path) :
    (∃ there, t.hasFolder p = .ok there) ∨ t.hasFolder p = .error .tooLong := by
  rw [Tree.hasFolder, Tree.holdsAt]
  split
  · exact .inl ⟨_, rfl⟩
  · exact .inr rfl
  · exact .inl ⟨_, rfl⟩

/-- No folders are found if one of the roots is too long to be looked at, be it ignored or not. -/
theorem foldersFound_of_tooLong (hmem : root ∈ roots) (hroot : t.hasFolder root = .error .tooLong) :
    foldersFound t roots ignored = .error (.file .tooLong) := by
  have hstop : (forM roots fun root => do
      let _ ← (t.hasFolder root).mapError Fault.file) = Except.error (.file .tooLong) := by
    induction roots with
    | nil => cases hmem
    | cons first roots ih =>
      rw [List.forM_cons]
      rcases hasFolder_cases t first with ⟨there, hthere⟩ | hlong
      · have hne : root ≠ first := by
          rintro rfl
          exact nomatch hroot.symm.trans hthere
        rw [hthere]
        exact ih ((List.mem_cons.1 hmem).resolve_left hne)
      · rw [hlong]
        rfl
  rw [foldersFound]
  exact congrArg (· >>= fun _ => pure (folders t roots ignored)) hstop

/-- The folders that are found are listed as they should be, unless a root is too long to be looked
at. -/
theorem foldersFound_isListing (t : Tree) (roots ignored : List Path) :
    (∀ root ∈ roots, ∃ there, t.hasFolder root = .ok there) ∧
        (∃ found, foldersFound t roots ignored = .ok found ∧ IsListing t roots ignored found) ∨
      (∃ root ∈ roots, t.hasFolder root = .error .tooLong) ∧
        foldersFound t roots ignored = .error (.file .tooLong) := by
  by_cases hlong : ∃ root ∈ roots, t.hasFolder root = .error .tooLong
  · obtain ⟨root, hmem, hroot⟩ := hlong
    exact .inr ⟨⟨root, hmem, hroot⟩, foldersFound_of_tooLong hmem hroot⟩
  · have hall : ∀ root ∈ roots, ∃ there, t.hasFolder root = .ok there := fun root hmem =>
      (hasFolder_cases t root).resolve_right fun hroot => hlong ⟨root, hmem, hroot⟩
    exact .inl ⟨hall, _, foldersFound_of_hasFolder hall, folders_isListing t roots ignored⟩

/-- A path through a name that is longer than any file's cannot be looked at. -/
theorem hasFolder_of_long {n : String} (hwhole : Tree.isBroken n = false)
    (hlong : Tree.longestName < n.utf8ByteSize) :
    t.hasFolder ⟨.root, [n]⟩ = .error .tooLong := by
  have hlocate : t.locate ⟨.root, [n]⟩ = .error .tooLong := by
    rw [Tree.locate, Tree.namesOf, if_neg (by simp [hwhole])]
    split
    · rfl
    · change t.go [] [n] = _
      rw [Tree.go, if_neg (by simp [Tree.isFolder]), if_pos hlong]
  rw [Tree.hasFolder, Tree.holdsAt, hlocate]

/-- A name of so many letters. -/
def lettered (length : Nat) : String := String.ofList (List.replicate length 'n')

theorem isBroken_lettered (length : Nat) : Tree.isBroken (lettered length) = false := by
  simp [Tree.isBroken, lettered]

/-- The folders of one root are not found if the name of another has 256 letters. -/
theorem not_found_beside_overlong : ¬∃ found,
    foldersFound ((Tree.mk [] []).put ["src", "a.clj"] .empty)
      [⟨.root, ["src"]⟩, ⟨.root, [lettered 256]⟩] [] = .ok found := by
  rintro ⟨found, hfound⟩
  have hlong := hasFolder_of_long (t := (Tree.mk [] []).put ["src", "a.clj"] .empty)
    (isBroken_lettered 256) (by decide +kernel)
  exact nomatch hfound.symm.trans (foldersFound_of_tooLong (by simp) hlong)

end BuildFiles.Sources
