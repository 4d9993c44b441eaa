import BuildFiles.Proofs.Label
import BuildFiles.Proofs.Sources.Generation

/-!
# Generating build files again

A build file that was generated is left as it is when it is generated again
(`Generated.returns_generate`). But it is a file, and the folders on the way from a root to it lead
to a file from then on. So the folders that are found afterwards are those between any two of the
folders that were found at first (`mem_folders_of_generated`), and they are the same exactly if the
first ones leave no gap: `folders_eq_iff`. Roots that do not lie in each other leave none
(`isGapless_of_apart`).
-/

namespace BuildFiles

namespace Sources

variable {t t' : Tree} {done : List Path} {folder p : Path} {roots ignored : List Path} {l : Layout}

/-! ## One build file again -/

namespace Layout

theorem returns_generate {text : String} {changed : Bool} (htext : (l.text t folder).Returns text)
    (hupdate : t.update (folder.entry BuildFile.fileName) text = .ok (t', changed)) :
    (l.generate t folder).Returns (t', folder.entry BuildFile.fileName) := by
  refine htext.bind ?_
  simp only [show folder.join (.ofNames [BuildFile.fileName]) = folder.entry BuildFile.fileName
    from rfl, hupdate]
  exact (Logged.Returns.say _).bind (.pure _)

/-- A folder whose build file was generated keeps it when it is generated again. -/
theorem Generated.returns_generate (h : l.Generated t t' done) (hfolder : folder ∈ done)
    (hanchor : folder.anchor = .root) (hthere : t.isFolder folder.names = true) :
    (l.generate t' folder).Returns (t', folder.entry BuildFile.fileName) := by
  obtain ⟨text, htext, hhas⟩ := h.exists_hasText hfolder hanchor hthere
  obtain ⟨anchor, names⟩ := folder
  obtain rfl : anchor = .root := hanchor
  have hthere' : t'.isFolder names = true := (h.sources.folders names).symm.trans hthere
  rw [← text_eq h.sources.toSameSources.symm (Tree.hasFolder_of_isFolder h.proper hthere')] at htext
  rcases hhas with hbytes | hread
  · obtain ⟨changed, hupdate⟩ := Tree.exists_update_of_get? h.proper (by decide) hbytes
    exact Layout.returns_generate htext hupdate
  · have hupdate : t'.update (Path.entry ⟨.root, names⟩ BuildFile.fileName) text =
        .ok (t', false) := by
      rw [Tree.update, hread]
      exact if_pos rfl
    exact Layout.returns_generate htext hupdate

/-- The files of the tree are those that were there and the build files that were generated. -/
theorem Generated.isFile_iff (h : l.Generated t t' done)
    (hdone : ∀ p ∈ done, p.anchor = .root ∧ t.isFolder p.names = true) {place : Location} :
    t'.isFile place = true ↔ t.isFile place = true ∨ ∃ folder ∈ done, place = buildFile folder := by
  constructor
  · intro hfile
    by_cases hnew : ∃ folder ∈ done, place = buildFile folder
    · exact .inr hnew
    · refine .inl ?_
      rw [Tree.isFile_eq_isSome] at hfile ⊢
      rwa [← h.kept place fun folder hfolder heq => hnew ⟨folder, hfolder, heq⟩]
  · rintro (hfile | ⟨⟨anchor, names⟩, hfolder, rfl⟩)
    · exact h.sources.isFile place hfile
    · obtain ⟨rfl, hthere⟩ : anchor = .root ∧ _ := hdone _ hfolder
      obtain ⟨text, -, hbytes | ⟨-, hread⟩⟩ := h.whole _ hfolder
      · exact Tree.isFile_of_get? hbytes
      · have hthere' := (h.sources.folders names).symm.trans hthere
        have hresolved := Tree.isResolved_entry h.proper hthere'
          (show BuildFile.fileName ≠ ".." by decide)
        exact h.sources.isFile _ (Tree.isFile_of_readText hresolved hread)

end Layout

/-! ## The folders that are found again -/

/-- Of two folders only one can be listed first. -/
theorem deeperFirst_antisymm {a b : Path} (ha : a.anchor = .root) (hb : b.anchor = .root)
    (hnames : ∀ n ∈ a.names, Tree.IsName n) (hnames' : ∀ n ∈ b.names, Tree.IsName n)
    (hab : deeperFirst a b = true) (hba : deeperFirst b a = true) : a = b := by
  obtain ⟨anchor, names⟩ := a
  obtain ⟨anchor', names'⟩ := b
  obtain rfl : anchor = .root := ha
  obtain rfl : anchor' = .root := hb
  simp only [deeperFirst, Bool.or_eq_true, Bool.and_eq_true, decide_eq_true_eq, beq_iff_eq]
    at hab hba
  have htext : (Path.mk .root names).toText = (Path.mk .root names').toText := by
    rcases hab with hab | ⟨hlength, hab⟩ <;> rcases hba with hba | ⟨hlength', hba⟩
    · omega
    · omega
    · omega
    · exact String.le_antisymm hab hba
  rw [Tree.toText_root, Tree.toText_root, String.append_right_inj, ← Label.packageText_eq,
    ← Label.packageText_eq] at htext
  exact congrArg (Path.mk .root) (Label.packageText_inj (fun n hn => (hnames n hn).isSegment)
    (fun n hn => (hnames' n hn).isSegment) htext)

/-- Every folder between two of the list is in the list. -/
def IsGapless (folders : List Path) : Prop :=
  ∀ low ∈ folders, ∀ high ∈ folders, ∀ p : Path,
    low.isWithin p = true → p.isWithin high = true → p ∈ folders

section Folders

variable (ht : t.IsProper) (hroots : ∀ root ∈ roots, root.IsResolved)
include ht hroots

/-- When the folders that were found have their build files, those that are found are the folders
between any two of them. -/
theorem mem_folders_of_generated (h : l.Generated t t' (folders t roots l.ignored)) :
    p ∈ folders t' roots l.ignored ↔ ∃ low ∈ folders t roots l.ignored,
      ∃ high ∈ folders t roots l.ignored, low.isWithin p = true ∧ p.isWithin high = true := by
  have hfile : ∀ place, t'.isFile place = true ↔ t.isFile place = true ∨
      ∃ folder ∈ folders t roots l.ignored, place = buildFile folder :=
    fun _ => h.isFile_iff fun _ hp => placed_of_mem_folders ht hroots hp
  constructor
  · intro hp
    obtain ⟨root, hroot, hmem⟩ := mem_folders.1 hp
    obtain ⟨hthere, hkept, hbelow⟩ := (mem_foldersOf h.proper (hroots root hroot)).1 hmem
    rw [← h.sources.folders] at hthere
    have hroot' : root ∈ folders t roots l.ignored :=
      mem_folders.2 ⟨root, hroot, (mem_foldersOf ht (hroots root hroot)).2
        ⟨hthere, hkept, .inl rfl⟩⟩
    rcases hbelow with rfl | ⟨way, more, n, hway, rfl, hnew, hholder⟩
    · exact ⟨p, hroot', p, hroot', Path.isWithin_refl p, Path.isWithin_refl p⟩
    · have hwithin : (root.join (.ofNames way)).isWithin root = true :=
        Path.isWithin_iff_join.2 ⟨way, rfl⟩
      rcases (hfile _).1 hnew with hold | ⟨low, hlow, hplace⟩
      · -- the file was there before
        have hmem' : root.join (.ofNames way) ∈ folders t roots l.ignored :=
          mem_folders.2 ⟨root, hroot, (mem_foldersOf ht (hroots root hroot)).2
            ⟨hthere, hkept, .inr ⟨way, more, n, hway, rfl, hold, hholder⟩⟩⟩
        exact ⟨_, hmem', root, hroot', Path.isWithin_refl _, hwithin⟩
      · -- the file is the build file of a folder further down
        refine ⟨low, hlow, root, hroot', Path.isWithin_iff.2 ⟨?_, more, ?_⟩, hwithin⟩
        · exact (placed_of_mem_folders ht hroots hlow).1.trans (hroots root hroot).1.symm
        · rw [buildFile, ← List.append_assoc, ← List.append_assoc] at hplace
          rw [Path.join_ofNames]
          exact (List.append_inj' hplace rfl).1
  · rintro ⟨low, hlow, high, hhigh, hlow', hhigh'⟩
    obtain ⟨root, hroot, hmem⟩ := mem_folders.1 hhigh
    obtain ⟨hthere, hkept, -⟩ := (mem_foldersOf ht (hroots root hroot)).1 hmem
    rw [h.sources.folders] at hthere
    obtain ⟨way, rfl⟩ := Path.isWithin_iff_join.1 <|
      Path.isWithin_trans hhigh' (isWithin_of_mem_foldersOf ht (hroots root hroot) hmem)
    obtain ⟨more, rfl⟩ := Path.isWithin_iff_join.1 hlow'
    refine mem_folders.2 ⟨root, hroot, (mem_foldersOf h.proper (hroots root hroot)).2
      ⟨hthere, hkept, ?_⟩⟩
    by_cases hway : way = []
    · exact .inl (by rw [hway, Path.join_ofNames, List.append_nil])
    · refine .inr ⟨way, more, BuildFile.fileName, hway, rfl, (hfile _).2 (.inr ⟨_, hlow, ?_⟩), ?_⟩
      · simp [buildFile, Path.join_ofNames]
      · simpa [Path.join_ofNames] using isIgnored_of_mem_folders ht hroots hlow

/-- The folders that are found are the same again exactly if there is none between two of them that
is not one of them. -/
theorem folders_eq_iff (h : l.Generated t t' (folders t roots l.ignored)) :
    folders t' roots l.ignored = folders t roots l.ignored ↔
      IsGapless (folders t roots l.ignored) := by
  constructor
  · intro heq low hlow high hhigh p hlow' hhigh'
    rw [← heq]
    exact (mem_folders_of_generated ht hroots h).2 ⟨low, hlow, high, hhigh, hlow', hhigh'⟩
  · intro hgapless
    have hmem : ∀ p, p ∈ folders t' roots l.ignored ↔ p ∈ folders t roots l.ignored := by
      intro p
      rw [mem_folders_of_generated ht hroots h]
      constructor
      · rintro ⟨low, hlow, high, hhigh, hlow', hhigh'⟩
        exact hgapless low hlow high hhigh p hlow' hhigh'
      · intro hp
        exact ⟨p, hp, p, hp, Path.isWithin_refl p, Path.isWithin_refl p⟩
    have hperm : (folders t' roots l.ignored).Perm (folders t roots l.ignored) :=
      (List.perm_ext_iff_of_nodup (nodup_folders ..) (nodup_folders ..)).2 hmem
    -- both are in order, and the order leaves no choice
    refine List.Perm.eq_of_pairwise (fun a b ha hb hab hba => ?_) (pairwise_folders t' roots _)
      (pairwise_folders t roots _) hperm
    obtain ⟨hanchor, hfolder⟩ := placed_of_mem_folders ht hroots ((hmem a).1 ha)
    obtain ⟨hanchor', hfolder'⟩ := placed_of_mem_folders ht hroots hb
    exact deeperFirst_antisymm hanchor hanchor' (fun _ => ht.isName hfolder)
      (fun _ => ht.isName hfolder') hab hba

/-- Roots of which none lies in another one leave no gap: the folders between two that have build
files are then found from the same root, and so they have one, too. -/
theorem isGapless_of_apart (hapart : ∀ root ∈ roots, ∀ root' ∈ roots,
    root.isWithin root' = true → root = root') : IsGapless (folders t roots ignored) := by
  intro low hlow high hhigh p hlow' hhigh'
  obtain ⟨root, hroot, hmem⟩ := mem_folders.1 hlow
  obtain ⟨root', hroot', hmem'⟩ := mem_folders.1 hhigh
  have hwithin := isWithin_of_mem_foldersOf ht (hroots root hroot) hmem
  have hwithin' : p.isWithin root' = true :=
    Path.isWithin_trans hhigh' (isWithin_of_mem_foldersOf ht (hroots root' hroot') hmem')
  -- both roots are on the way to the lower folder, so one of them is in the other
  obtain rfl : root = root' := by
    obtain ⟨hanchor, hle⟩ := Path.isWithin_iff.1 hwithin
    obtain ⟨hanchor', hle'⟩ := Path.isWithin_iff.1 (Path.isWithin_trans hlow' hwithin')
    rcases List.prefix_or_prefix_of_prefix hle hle' with hle | hle
    · exact (hapart root' hroot' root hroot
        (Path.isWithin_iff.2 ⟨hanchor'.symm.trans hanchor, hle⟩)).symm
    · exact hapart root hroot root' hroot'
        (Path.isWithin_iff.2 ⟨hanchor.symm.trans hanchor', hle⟩)
  obtain ⟨hthere, hkept, hbelow⟩ := (mem_foldersOf ht (hroots root hroot)).1 hmem
  obtain ⟨way, rfl⟩ := Path.isWithin_iff_join.1 hwithin'
  refine mem_folders.2 ⟨root, hroot, (mem_foldersOf ht (hroots root hroot)).2 ⟨hthere, hkept, ?_⟩⟩
  by_cases hway : way = []
  · exact .inl (by rw [hway, Path.join_ofNames, List.append_nil])
  · obtain ⟨between, rfl⟩ := Path.isWithin_iff_join.1 hlow'
    rcases hbelow with hroot'' | ⟨stop, more, n, -, hstop, hfile, hholder⟩
    · have hnames := congrArg Path.names hroot''
      simp only [Path.join_ofNames, List.append_assoc, List.append_right_eq_self] at hnames
      exact absurd (List.append_eq_nil_iff.1 hnames).1 hway
    · have hnames := congrArg Path.names hstop
      simp only [Path.join_ofNames, List.append_assoc, List.append_cancel_left_eq] at hnames
      subst hnames
      rw [List.append_assoc way] at hfile hholder
      exact .inr ⟨way, between ++ more, n, hway, rfl, hfile, hholder⟩

end Folders

end Sources

end BuildFiles
