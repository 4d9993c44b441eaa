import BuildFiles.Proofs.Tree

/-!
# Ways through a tree

Where a path leads depends on the folders that there are. More folders only add places that paths
lead to: what led somewhere leads there still (`KeepsFolders.locate`). And where a path leads to,
and whatever file lies below, each name is one that a way can go through, so a file is reached
through the path of any folder that it is below: `locate_join`.
-/

namespace BuildFiles.Tree

variable {t t' : Tree} {l : Location}

/-- What is a folder of the first tree is one of the second. -/
def KeepsFolders (t t' : Tree) : Prop := ∀ l, t.isFolder l = true → t'.isFolder l = true

/-- A name that a way can go through, to something of that name. -/
structure IsStep (n : String) : Prop where
  ne_up : n ≠ ".."
  whole : isBroken n = false
  short : n.utf8ByteSize ≤ longestName

theorem IsName.isStep (h : IsName n) : IsStep n := ⟨h.ne_up, h.whole, h.short⟩

theorem IsProper.isStep (ht : t.IsProper) {way : Location} (h : t.isFile (l ++ way) = true) :
    ∀ n ∈ way, IsStep n := by
  have hmem : l ++ way ∈ t.files.keys ++ t.folders := List.mem_append_left _ (isFile_iff.1 h)
  exact fun n hn => (ht.names _ hmem n (List.mem_append_right l hn)).isStep

theorem KeepsFolders.go (h : t.KeepsFolders t') {ns : List String} {place : Location}
    (hgo : t.go l ns = .ok place) : t'.go l ns = .ok place := by
  induction ns generalizing l with
  | nil => exact hgo
  | cons n ns ih =>
    rw [Tree.go] at hgo ⊢
    split_ifs at hgo with hfolder hlong hup
    · rw [Bool.not_eq_true, Bool.not_eq_false'] at hfolder
      rw [if_neg (by simp [h l hfolder]), if_neg hlong, if_pos hup]
      exact ih hgo
    · rw [Bool.not_eq_true, Bool.not_eq_false'] at hfolder
      rw [if_neg (by simp [h l hfolder]), if_neg hlong, if_neg hup]
      exact ih hgo

/-- What a path leads to it still leads to. -/
theorem KeepsFolders.locate (h : t.KeepsFolders t') {p : Path} {place : Location}
    (hp : t.locate p = .ok place) : t'.locate p = .ok place := by
  obtain ⟨ns, hns, hgo⟩ := Except.bind_eq_ok hp
  rw [Tree.locate, hns]
  exact h.go hgo

theorem namesOf_cases {p : Path} {ns : List String} (h : namesOf p = .ok ns) :
    ns = p.names ∧ ∀ n ∈ p.names, isBroken n = false := by
  rw [namesOf] at h
  split_ifs at h with hbroken
  refine ⟨(Except.ok.inj h).symm, fun n hn => ?_⟩
  rw [Bool.not_eq_true] at hbroken
  exact Bool.eq_false_iff.2 (List.any_eq_false.1 hbroken n hn)

theorem namesOf_error {p : Path} {e : FileFault} (h : namesOf p = .error e) :
    e = .nullCharacter ∨ e = .tooLong := by
  rw [namesOf] at h
  split_ifs at h with hbroken hlong
  · exact .inl (Except.error.inj h).symm
  · exact .inr (Except.error.inj h).symm

/-- Where a way leads is below places that can be reached. -/
theorem isStep_of_go {ns : List String} {place : Location} (hns : ∀ n ∈ ns, isBroken n = false)
    (hl : ∀ n ∈ l, IsStep n) (h : t.go l ns = .ok place) : ∀ n ∈ place, IsStep n := by
  induction ns generalizing l with
  | nil =>
    cases h
    exact hl
  | cons n ns ih =>
    obtain ⟨hn, hns⟩ := List.forall_mem_cons.1 hns
    rw [go] at h
    split_ifs at h with hfolder hlong hup
    · exact ih hns (fun m hm => hl m ((List.dropLast_prefix l).subset hm)) h
    · refine ih hns (List.forall_mem_append.2 ⟨hl, ?_⟩) h
      exact List.forall_mem_singleton.2 ⟨hup, hn, Nat.not_lt.1 hlong⟩

theorem isStep_of_locate {p : Path} (h : t.locate p = .ok l) : ∀ n ∈ l, IsStep n := by
  obtain ⟨ns, hns, hgo⟩ := Except.bind_eq_ok h
  obtain ⟨rfl, hwhole⟩ := namesOf_cases hns
  exact isStep_of_go hwhole (by simp) hgo

theorem go_of_isFile {ns : List String} (h : t.isFile (l ++ ns) = true)
    (hns : ∀ n ∈ ns, IsStep n) : t.go l ns = .ok (l ++ ns) := by
  induction ns generalizing l with
  | nil => rw [go, List.append_nil]
  | cons n ns ih =>
    obtain ⟨hn, hns⟩ := List.forall_mem_cons.1 hns
    rw [go, if_neg (by simp [isFolder_of_isFile h (List.cons_ne_nil _ _)]),
      if_neg (Nat.not_lt.2 hn.short), if_neg hn.ne_up, ih (by rwa [List.append_assoc]) hns,
      List.append_assoc]
    rfl

/-- A path that goes on from a folder leads to where the way goes on, unless the path is one that
cannot be looked at. -/
theorem locate_join_of_go {folder : Path} {way : List String} {place : Location}
    (hl : t.locate folder = .ok l) (hway : t.go l way = .ok place) :
    t.locate (folder.join (.ofNames way)) =
      (namesOf (folder.join (.ofNames way))).map fun _ => place := by
  rcases hns : namesOf (folder.join (.ofNames way)) with e | ns
  · rw [locate, hns]
    rfl
  · obtain ⟨rfl, -⟩ := namesOf_cases hns
    obtain ⟨ns', hns', hgo⟩ := Except.bind_eq_ok hl
    obtain ⟨rfl, -⟩ := namesOf_cases hns'
    rw [locate, hns]
    change t.go [] (folder.join (.ofNames way)).names = _
    rw [Path.join_ofNames, go_append, hgo]
    exact hway

/-- The path to a name in a folder leads to where the name stands in it, be there something of that
name or not, unless the path is one that cannot be looked up. -/
theorem locate_entry {folder : Path} {n : String} (hl : t.locate folder = .ok l)
    (hthere : t.isFolder l = true) (hn : IsStep n) :
    t.locate (folder.entry n) = (namesOf (folder.entry n)).map fun _ => l ++ [n] := by
  refine locate_join_of_go hl ?_
  rw [go, if_neg (by simp [hthere]), if_neg (Nat.not_lt.2 hn.short), if_neg hn.ne_up, go]

/-- The path to a file below a folder leads to it. -/
theorem locate_join {folder : Path} {way : List String} (hl : t.locate folder = .ok l)
    (h : t.isFile (l ++ way) = true) (hway : ∀ n ∈ way, IsStep n) :
    t.locate (folder.join (.ofNames way)) =
      (namesOf (folder.join (.ofNames way))).map fun _ => l ++ way :=
  locate_join_of_go hl (go_of_isFile h hway)

/-- The path to a file below a folder reads as the file does, unless it is one that cannot be looked
up. -/
theorem read_join {folder : Path} {way : List String} {content : ByteArray}
    (hl : t.locate folder = .ok l) (h : t.get? (l ++ way) = some content)
    (hway : ∀ n ∈ way, IsStep n) :
    t.read (folder.join (.ofNames way)) =
      (namesOf (folder.join (.ofNames way))).map fun _ => content := by
  have hjoin := locate_join hl (isFile_of_get? h) hway
  rcases hns : namesOf (folder.join (.ofNames way)) with e | ns
  · rw [read, hjoin, hns]
    rfl
  · have hplace : t.locate (folder.join (.ofNames way)) = .ok (l ++ way) := by
      rw [hjoin, hns]
      rfl
    rw [read, Except.bind_of_ok hplace, h]
    rfl

end BuildFiles.Tree
