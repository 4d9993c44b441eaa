import BuildFiles.Proofs.Ways

/-!
# What an update writes

In a proper tree an update of a file in a folder that is there either leaves the tree as it is,
since the file reads as the text already, or puts the bytes of the text at the place of the file and
does nothing else (`update_eq_ok`). The tree stays a proper one (`IsProper.put`). By whatever path
the folder is reached, the file is left with the same bytes (`leftBy`, `exists_update`). Where the
bytes are at the place already, the tree is the same after it: `exists_update_of_get?`. The folders
on the way to the file may also be made by the update; then paths may lead somewhere that led
nowhere before, but no file is changed but the one, which is brought up to the text
(`read_of_update`) and reads as it if it has no carriage returns (`writes_of_update`).
-/

namespace BuildFiles.Tree

variable {t t' : Tree} {l : Location} {n : String} {content : ByteArray}

/-- Making a folder that is there changes nothing. -/
theorem makeFolders_of_locate (ht : t.IsApart) {p : Path} (hl : t.locate p = .ok l)
    (h : t.isFolder l = true) : t.makeFolders p = .ok t := by
  obtain ⟨ns, hns, hgo⟩ := Except.bind_eq_ok hl
  have hmake : t.makeIn ns = .ok t := by
    rw [makeIn, hgo]
    change (if t.isFile l then _ else _) = _
    rw [if_neg (by simp [ht.isFile_eq_false h]), makeFolder, if_pos h]
  rw [makeFolders, hns]
  change t.makeAll ns.reverse = .ok t
  rcases hreverse : ns.reverse with _ | ⟨n, before⟩
  · rfl
  · rw [makeAll, ← hreverse, List.reverse_reverse, hmake]

theorem makeFolders_of_isFolder (ht : t.IsProper) (h : t.isFolder l = true) :
    t.makeFolders ⟨.root, l⟩ = .ok t :=
  makeFolders_of_locate ht.isApart (locate_of_isFolder ht h) h

theorem write_eq_ok (ht : t.IsProper) (h : t.isFolder l = true) (hn : n ≠ "..")
    (hwrite : t.write (Path.entry ⟨.root, l⟩ n) content = .ok t') :
    t' = t.put (l ++ [n]) content ∧ t.isFolder (l ++ [n]) = false ∧
      t.locate (Path.entry ⟨.root, l⟩ n) = .ok (l ++ [n]) := by
  rw [write, Path.parent_entry, makeFolders_of_isFolder ht h] at hwrite
  obtain ⟨place, hplace, hput⟩ := Except.bind_eq_ok (x := t.locate _) hwrite
  obtain rfl := locate_eq_ok (isResolved_entry ht h hn) hplace
  split_ifs at hput with hfolder
  exact ⟨(Except.ok.inj hput).symm, Bool.eq_false_iff.2 hfolder, hplace⟩

theorem replace_eq_ok (ht : t.IsProper) (h : t.isFolder l = true)
    (hreplace : t.replace (Path.entry ⟨.root, l⟩ n) content = .ok t') :
    t' = t.put (l ++ [n]) content ∧ t.isFolder (l ++ [n]) = false ∧
      t.locate (Path.entry ⟨.root, l⟩ n) = .ok (l ++ [n]) := by
  rw [replace, Path.parent_entry, makeFolders_of_isFolder ht h, Path.name_entry] at hreplace
  change (if _ then _ else if _ then _ else _) = _ at hreplace
  split_ifs at hreplace with hlong hn
  exact write_eq_ok ht h hn hreplace

/-- An update leaves a file that reads as the text, and puts the bytes of the text at the place of
any other. -/
theorem update_eq_ok (ht : t.IsProper) (h : t.isFolder l = true) {text : String} {changed : Bool}
    (hupdate : t.update (Path.entry ⟨.root, l⟩ n) text = .ok (t', changed)) :
    (t' = t ∧ t.readText (Path.entry ⟨.root, l⟩ n) = .ok text) ∨
      t' = t.put (l ++ [n]) text.toUTF8 ∧ t.isFolder (l ++ [n]) = false ∧
        t.locate (Path.entry ⟨.root, l⟩ n) = .ok (l ++ [n]) := by
  have hwritten : (t.replace (Path.entry ⟨.root, l⟩ n) text.toUTF8).map (fun t => (t, true)) =
      .ok (t', changed) → t' = t.put (l ++ [n]) text.toUTF8 ∧ t.isFolder (l ++ [n]) = false ∧
        t.locate (Path.entry ⟨.root, l⟩ n) = .ok (l ++ [n]) := by
    intro hmap
    rcases hreplace : t.replace (Path.entry ⟨.root, l⟩ n) text.toUTF8 with e | mid
    · rw [hreplace] at hmap
      cases hmap
    · rw [hreplace] at hmap
      cases hmap
      exact replace_eq_ok ht h hreplace
  rw [update] at hupdate
  split at hupdate
  · next old hold =>
    split at hupdate
    · next hsame =>
      cases hupdate
      exact .inl ⟨rfl, hsame ▸ hold⟩
    · exact .inr (hwritten hupdate)
  · exact .inr (hwritten hupdate)
  · exact .inr (hwritten hupdate)
  · cases hupdate

/-- A tree stays proper when a file is put in one of its folders, where the path can lead. -/
theorem IsProper.put (ht : t.IsProper) (h : t.isFolder l = true) (hn : IsName n)
    (hfree : t.isFolder (l ++ [n]) = false)
    (hlocate : t.locate (Path.entry ⟨.root, l⟩ n) = .ok (l ++ [n])) (content : ByteArray) :
    (t.put (l ++ [n]) content).IsProper := by
  have hplaces : ∀ place ∈ (t.put (l ++ [n]) content).files.keys ++ t.folders,
      place = l ++ [n] ∨ place ∈ t.files.keys ++ t.folders := by
    intro place hplace
    rcases List.mem_append.1 hplace with hkey | hfolder
    · exact (Entries.mem_keys_insert.1 hkey).imp_right fun hkey => List.mem_append_left _ hkey
    · exact .inr (List.mem_append_right _ hfolder)
  refine ⟨fun place hplace => ?_, fun place hplace => ?_, fun place hplace => ?_⟩
  · rcases hplaces place hplace with rfl | hplace
    · rw [List.forall_mem_append, List.forall_mem_singleton]
      exact ⟨fun m hm => ht.isName h hm, hn⟩
    · exact ht.names place hplace
  · rcases hplaces place hplace with rfl | hplace
    · obtain ⟨ns, hns, -⟩ := Except.bind_eq_ok hlocate
      rw [namesOf] at hns
      split_ifs at hns with hbroken hlong
      exact Nat.not_lt.1 hlong
    · exact ht.paths place hplace
  · rw [isFolder_put h]
    rcases Entries.mem_keys_insert.1 hplace with rfl | hplace
    · exact hfree
    · exact ht.apart place hplace

/-! ## Updates in a folder that is there -/

/-- What a file holds when it has been brought up to a text: what it held if that reads as the text,
and the bytes of the text otherwise. -/
def leftBy (old : Option ByteArray) (text : String) : ByteArray :=
  match old with
  | some content =>
    if (String.fromUTF8? content).map Text.plainLines = some text then content else text.toUTF8
  | none => text.toUTF8

theorem leftBy_bytes (text : String) : leftBy (some text.toUTF8) text = text.toUTF8 :=
  ite_self _

/-- What is brought up to a text once more stays as it is. -/
theorem leftBy_leftBy (old : Option ByteArray) (text : String) :
    leftBy (some (leftBy old text)) text = leftBy old text := by
  rcases old with _ | content
  · exact leftBy_bytes text
  · by_cases hreads : (String.fromUTF8? content).map Text.plainLines = some text
    · have hkept : leftBy (some content) text = content := if_pos hreads
      rw [hkept, hkept]
    · have hwritten : leftBy (some content) text = text.toUTF8 := if_neg hreads
      rw [hwritten, leftBy_bytes]

section Folder

variable {folder : Path} {place : Location} (ht : t.IsApart) (hl : t.locate folder = .ok l)
  (hthere : t.isFolder l = true) (hn : IsStep n)
include ht hl hthere hn

theorem replace_of_locate (hshort : n.utf8ByteSize + standInLength ≤ longestName)
    (hplace : t.locate (folder.entry n) = .ok place) (hfree : t.isFolder place = false) :
    t.replace (folder.entry n) content = .ok (t.put place content) := by
  have hmake := makeFolders_of_locate ht hl hthere
  have hwrite : t.write (folder.entry n) content = .ok (t.put place content) := by
    rw [write, Path.parent_entry, hmake]
    change (t.locate (folder.entry n) >>= _) = _
    rw [hplace]
    exact if_neg (by simp [hfree])
  rw [replace, Path.parent_entry, hmake, Path.name_entry]
  change (if _ then _ else if _ then _ else _) = _
  rw [if_neg (Nat.not_lt.2 hshort), if_neg hn.ne_up, hwrite]

/-- A file that can be written is brought up to the text, or it is left as it reads as the text
already. -/
theorem exists_update (hshort : n.utf8ByteSize + standInLength ≤ longestName)
    (hplace : t.locate (folder.entry n) = .ok place) (hfree : t.isFolder place = false)
    (text : String) : ∃ changed, t.update (folder.entry n) text =
      .ok (t.put place (leftBy (t.get? place) text), changed) := by
  have hwritten : (t.replace (folder.entry n) text.toUTF8).map (fun t => (t, true)) =
      .ok (t.put place text.toUTF8, true) := by
    rw [replace_of_locate ht hl hthere hn hshort hplace hfree]
    rfl
  rcases hget : t.get? place with _ | content
  · have hread : t.read (folder.entry n) = .error .missing := by
      rw [read, Except.bind_of_ok hplace, hget, hfree]
      rfl
    rw [update, hwritten, readText, hread]
    exact ⟨true, rfl⟩
  · have hread : t.read (folder.entry n) = .ok content := by
      rw [read, Except.bind_of_ok hplace, hget]
    rw [update, hwritten, readText, Except.bind_of_ok hread, leftBy]
    rcases String.fromUTF8? content with _ | old
    · exact ⟨true, rfl⟩
    · simp only [Option.map_some, Option.some.injEq]
      by_cases hsame : Text.plainLines old = text
      · rw [if_pos hsame, if_pos hsame, put, Entries.insert_of_get? hget]
        exact ⟨false, rfl⟩
      · rw [if_neg hsame, if_neg hsame]
        exact ⟨true, rfl⟩

/-- Nothing is written where the path leads to a folder, or cannot be looked at. -/
theorem exists_error_of_update (hblocked : ∀ place, t.locate (folder.entry n) = .ok place →
    t.isFolder place = true) (text : String) : ∃ e, t.update (folder.entry n) text = .error e := by
  have hentry := locate_entry hl hthere hn
  rcases hns : namesOf (folder.entry n) with e | ns
  · have hread : t.readText (folder.entry n) = .error e := by
      rw [readText, read, hentry, hns]
      rfl
    rw [update, hread]
    rcases namesOf_error hns with rfl | rfl
    · exact ⟨_, rfl⟩
    · exact ⟨_, rfl⟩
  · rw [hns] at hentry
    have hfolder := hblocked _ hentry
    have hread : t.readText (folder.entry n) = .error .isFolder := by
      have hnone : t.get? (l ++ [n]) = none := by
        have hfile := ht.isFile_eq_false hfolder
        rwa [isFile_eq_isSome, Option.isSome_eq_false_iff, Option.isNone_iff_eq_none] at hfile
      rw [readText, read, Except.bind_of_ok hentry, hnone, hfolder]
      rfl
    rw [update, hread]
    exact ⟨_, rfl⟩

end Folder

/-- An update of a file that holds the bytes of the text changes nothing, whether or not the file
reads as the text. -/
theorem exists_update_of_get? (ht : t.IsProper)
    (hshort : n.utf8ByteSize + standInLength ≤ longestName) {text : String}
    (h : t.get? (l ++ [n]) = some text.toUTF8) :
    ∃ changed, t.update (Path.entry ⟨.root, l⟩ n) text = .ok (t, changed) := by
  have hfile := isFile_of_get? h
  have hthere : t.isFolder l = true := isFolder_of_isFile hfile (List.cons_ne_nil n [])
  obtain ⟨changed, hupdate⟩ := exists_update ht.isApart (locate_of_isFolder ht hthere) hthere
    (ht.isStep hfile n (by simp)) hshort (locate_of_isFile ht hfile) (ht.isApart _ hfile) text
  rw [h, leftBy_bytes, put, Entries.insert_of_get? h] at hupdate
  exact ⟨changed, hupdate⟩

/-! ## Writing where folders are made -/

/-- The second tree has the files of the first, and its folders at least. -/
structure GainsFolders (t t' : Tree) : Prop where
  files : t'.files = t.files
  folders : t.KeepsFolders t'

theorem GainsFolders.refl (t : Tree) : t.GainsFolders t := ⟨rfl, fun _ h => h⟩

theorem GainsFolders.trans {t'' : Tree} (h : t.GainsFolders t') (h' : t'.GainsFolders t'') :
    t.GainsFolders t'' :=
  ⟨h'.files.trans h.files, fun l hl => h'.folders l (h.folders l hl)⟩

theorem gainsFolders_makeFolder (t : Tree) (l : Location) : t.GainsFolders (t.makeFolder l) := by
  rw [makeFolder]
  split
  · exact .refl t
  · refine ⟨rfl, fun l' hl' => ?_⟩
    rcases isFolder_iff.1 hl' with rfl | ⟨place, hplace, hle⟩ | hfile
    · exact isFolder_iff.2 (.inl rfl)
    · exact isFolder_iff.2 (.inr (.inl ⟨place, List.mem_cons_of_mem l hplace, hle⟩))
    · exact isFolder_iff.2 (.inr (.inr hfile))

theorem gainsFolders_of_makeIn {names : List String} (h : t.makeIn names = .ok t') :
    t.GainsFolders t' := by
  obtain ⟨l, -, h⟩ := Except.bind_eq_ok h
  split_ifs at h
  cases h
  exact gainsFolders_makeFolder t l

theorem gainsFolders_of_makeAll {names : List String} (h : t.makeAll names = .ok t') :
    t.GainsFolders t' := by
  induction names generalizing t' with
  | nil =>
    cases h
    exact .refl t
  | cons n before ih =>
    rw [makeAll] at h
    split at h
    · obtain ⟨mid, hmid, h⟩ := Except.bind_eq_ok h
      exact (ih hmid).trans (gainsFolders_of_makeIn h)
    · exact gainsFolders_of_makeIn h

theorem gainsFolders_of_makeFolders {p : Path} (h : t.makeFolders p = .ok t') :
    t.GainsFolders t' := by
  obtain ⟨ns, -, h⟩ := Except.bind_eq_ok h
  exact gainsFolders_of_makeAll h

/-- A file is put where its path leads when the folders on the way are there. -/
theorem exists_of_write {p : Path} (h : t.write p content = .ok t') :
    ∃ mid l, t.GainsFolders mid ∧ mid.locate p = .ok l ∧ t' = mid.put l content := by
  obtain ⟨mid, hmid, h⟩ := Except.bind_eq_ok h
  obtain ⟨l, hl, h⟩ := Except.bind_eq_ok h
  split_ifs at h
  exact ⟨mid, l, gainsFolders_of_makeFolders hmid, hl, (Except.ok.inj h).symm⟩

theorem exists_of_replace {p : Path} (h : t.replace p content = .ok t') :
    ∃ mid l, t.GainsFolders mid ∧ mid.locate p = .ok l ∧ t' = mid.put l content := by
  obtain ⟨mid, hmid, h⟩ := Except.bind_eq_ok h
  split_ifs at h
  obtain ⟨mid', l, hmid', hl, rfl⟩ := exists_of_write h
  exact ⟨mid', l, (gainsFolders_of_makeFolders hmid).trans hmid', hl, rfl⟩

/-- The second tree is the first with the file at a place written, for which folders may have been
made. -/
structure Writes (t : Tree) (l : Location) (t' : Tree) : Prop where
  get? : ∀ l', l' ≠ l → t'.get? l' = t.get? l'
  folders : t.KeepsFolders t'

theorem GainsFolders.writes_put (h : t.GainsFolders t') (l : Location) (content : ByteArray) :
    t.Writes l (t'.put l content) := by
  refine ⟨fun l' hne => ?_, fun l' hl' => ?_⟩
  · rw [get?_put, if_neg (by simpa using hne.symm), Tree.get?, h.files, Tree.get?]
  · rcases isFolder_iff.1 (h.folders l' hl') with rfl | hfolder | ⟨place, hplace, hle⟩
    · exact isFolder_iff.2 (.inl rfl)
    · exact isFolder_iff.2 (.inr (.inl hfolder))
    · exact isFolder_iff.2 (.inr (.inr ⟨place, Entries.mem_keys_insert.2 (.inr hplace), hle⟩))

theorem fromUTF8?_toUTF8 (text : String) : String.fromUTF8? text.toUTF8 = some text := by
  rw [String.fromUTF8?, String.toUTF8_eq_toByteArray, dif_pos text.isValidUTF8]
  rfl

theorem toUTF8_of_fromUTF8? {content : ByteArray} {text : String}
    (h : String.fromUTF8? content = some text) : text.toUTF8 = content := by
  rw [String.fromUTF8?] at h
  split at h
  · cases h
    rfl
  · cases h

/-- A file reads as a text if its bytes are those of one that is the text with line feeds. -/
theorem readText_eq_ok_iff {p : Path} {text : String} : t.readText p = .ok text ↔
    ∃ content, t.read p = .ok content ∧
      (String.fromUTF8? content).map Text.plainLines = some text := by
  rw [readText]
  constructor
  · intro h
    obtain ⟨content, hread, h⟩ := Except.bind_eq_ok h
    split at h
    · next s hs =>
      obtain rfl := Except.ok.inj h
      exact ⟨content, hread, by rw [hs, Option.map_some]⟩
    · cases h
  · rintro ⟨content, hread, hreads⟩
    obtain ⟨s, hs, rfl⟩ := Option.map_eq_some_iff.1 hreads
    rw [Except.bind_of_ok hread, hs]

/-- After an update the path leads to a file that was brought up to the text, and nothing else was
written. -/
theorem read_of_update {p : Path} {text : String} {changed : Bool}
    (h : t.update p text = .ok (t', changed)) : ∃ l, t'.locate p = .ok l ∧ t.Writes l t' ∧
      t'.read p = .ok (leftBy (t.read p).toOption text) := by
  have hwritten : t.readText p ≠ .ok text →
      (t.replace p text.toUTF8).map (fun t => (t, true)) = .ok (t', changed) →
      ∃ l, t'.locate p = .ok l ∧ t.Writes l t' ∧
        t'.read p = .ok (leftBy (t.read p).toOption text) := by
    intro hother hmap
    obtain ⟨written, hreplace, hpair⟩ := Except.map_eq_ok hmap
    obtain ⟨rfl, -⟩ := Prod.mk.inj hpair
    obtain ⟨mid, l, hmid, hl, rfl⟩ := exists_of_replace hreplace
    have hput := ((GainsFolders.refl mid).writes_put l text.toUTF8).folders.locate hl
    have hleft : leftBy (t.read p).toOption text = text.toUTF8 := by
      rcases hread : t.read p with e | content
      · rfl
      · exact if_neg fun hreads => hother (readText_eq_ok_iff.2 ⟨content, hread, hreads⟩)
    refine ⟨l, hput, hmid.writes_put l _, ?_⟩
    rw [hleft, read, Except.bind_of_ok hput, get?_put, if_pos (beq_self_eq_true l)]
  rw [update] at h
  split at h
  · next old hold =>
    split at h
    · next hsame =>
      cases h
      obtain ⟨content, hread, hreads⟩ := readText_eq_ok_iff.1 (hsame ▸ hold)
      obtain ⟨l, hl, -⟩ := Except.bind_eq_ok hread
      refine ⟨l, hl, ⟨fun _ _ => rfl, fun _ h => h⟩, ?_⟩
      rw [hread]
      exact congrArg Except.ok (if_pos hreads).symm
    · next hother => exact hwritten (fun hsame => hother (Except.ok.inj (hold.symm.trans hsame))) h
  · next hmissing => exact hwritten (by simp [hmissing]) h
  · next hbytes => exact hwritten (by simp [hbytes]) h
  · cases h

/-- What was brought up to a text without carriage returns reads as it. -/
theorem map_fromUTF8?_leftBy {text : String} (htext : Text.plainLines text = text)
    (old : Option ByteArray) :
    (String.fromUTF8? (leftBy old text)).map Text.plainLines = some text := by
  rcases old with _ | content
  · rw [leftBy, fromUTF8?_toUTF8, Option.map_some, htext]
  · rw [leftBy]
    split
    · next hreads => exact hreads
    · rw [fromUTF8?_toUTF8, Option.map_some, htext]

/-- After an update to a text without carriage returns the file reads as the text. -/
theorem writes_of_update {p : Path} {text : String} (htext : Text.plainLines text = text)
    {changed : Bool} (h : t.update p text = .ok (t', changed)) :
    ∃ l, t'.locate p = .ok l ∧ t.Writes l t' ∧ t'.readText p = .ok text := by
  obtain ⟨l, hl, hwrites, hread⟩ := read_of_update h
  exact ⟨l, hl, hwrites, readText_eq_ok_iff.2 ⟨_, hread, map_fromUTF8?_leftBy htext _⟩⟩

/-- A file that reads as the text is left as it is. -/
theorem update_of_readText {p : Path} {text : String} (h : t.readText p = .ok text) :
    t.update p text = .ok (t, false) := by
  rw [update, h]
  exact if_pos rfl

end BuildFiles.Tree
