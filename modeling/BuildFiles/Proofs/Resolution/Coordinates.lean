import BuildFiles.Resolution.Repository
import BuildFiles.Proofs.Tree
import Mathlib.Data.List.Infix

/-!
# Where libraries lie in a repository

The coordinate of a library leads to its files by the parts of its group, its artifact and its
version. Where each of them is a name on a path, the way can be taken back: no two coordinates lead
to the same place (`Coordinate.eq_of_locate`). So there are no more libraries with an archive than
places for one, which are the `Repository.jars`.
-/

namespace BuildFiles

namespace Text

variable {s s' : String} {sep c : Char} {cs : List Char}

/-- What is no separator is in some part. -/
theorem exists_mem_splitOn (hc : c ∈ cs) (hne : c ≠ sep) : ∃ part ∈ cs.splitOn sep, c ∈ part := by
  induction cs with
  | nil => cases hc
  | cons x cs ih =>
    rw [List.splitOn_cons_eq_if_modifyHead]
    rcases List.mem_cons.1 hc with rfl | hc
    · rw [if_neg (by simpa using hne)]
      obtain ⟨first, rest, hparts⟩ := List.exists_cons_of_ne_nil (List.splitOn_ne_nil sep cs)
      rw [hparts]
      exact ⟨c :: first, List.mem_cons_self, List.mem_cons_self⟩
    · obtain ⟨part, hpart, hmem⟩ := ih hc
      split
      · exact ⟨part, List.mem_cons_of_mem _ hpart, hmem⟩
      · obtain ⟨first, rest, hparts⟩ := List.exists_cons_of_ne_nil (List.splitOn_ne_nil sep cs)
        rw [hparts] at hpart ⊢
        rcases List.mem_cons.1 hpart with rfl | hpart
        · exact ⟨x :: part, List.mem_cons_self, List.mem_cons_of_mem x hmem⟩
        · exact ⟨part, List.mem_cons_of_mem _ hpart, hmem⟩

/-- A text is known by its parts. -/
theorem segments_inj (h : segments sep s = segments sep s') : s = s' := by
  have hparts := (List.map_injective_iff.2 fun _ _ => String.ofList_injective) h
  have hjoined := congrArg [sep].intercalate hparts
  rw [List.intercalate_splitOn, List.intercalate_splitOn] at hjoined
  exact String.toList_injective hjoined

theorem not_mem_of_mem_segments (h : s' ∈ segments sep s) : sep ∉ s'.toList := by
  obtain ⟨part, hpart, rfl⟩ := List.mem_map.1 h
  rw [String.toList_ofList]
  exact Path.not_mem_of_mem_splitOn hpart

end Text

/-! ## Parts of paths -/

namespace Path

variable {p : Path} {n : String} {ns : List String}

/-- A text that leads to something of that name when it is put after a path. -/
structure IsPart (n : String) : Prop extends IsSegment n where
  ne_here : n ≠ "."
  ne_up : n ≠ ".."

theorem parse_of_isPart (h : IsPart n) : parse n = .ofNames [n] := by
  have hanchor : anchorOf n.toList = .relative := by
    cases hcs : n.toList with
    | nil => rfl
    | cons c cs =>
      have hc : c ≠ '/' := fun hc => h.no_slash (by rw [hcs, hc]; exact List.mem_cons_self)
      simp [anchorOf, hc]
  have hparts : Text.segments '/' n = [n] := by
    rw [Text.segments, List.splitOn_eq_singleton h.no_slash, List.map_singleton,
      String.ofList_toList]
  rw [parse, hanchor, hparts]
  simp [ofNames, h.ne_empty, h.ne_here]

theorem div_of_isPart (h : IsPart n) : p / n = p.entry n := by
  change p.join (parse n) = _
  rw [parse_of_isPart h]
  rfl

theorem foldl_div_of_isPart (h : ∀ n ∈ ns, IsPart n) :
    ns.foldl (fun (p : Path) (n : String) => p / n) p = p.join (.ofNames ns) := by
  induction ns generalizing p with
  | nil => rw [List.foldl_nil, join_ofNames, List.append_nil]
  | cons n ns ih =>
    obtain ⟨hn, hns⟩ := List.forall_mem_cons.1 h
    rw [List.foldl_cons, div_of_isPart hn, ih hns, join_ofNames, join_ofNames, names_entry,
      List.append_assoc]
    rfl

end Path

/-! ## Places of coordinates -/

namespace Coordinate

variable {c c' : Coordinate} {ending : String} {repository : Path} {t : Tree} {place : Location}

/-- The parts of the group, the artifact and the version are names on a path. -/
structure IsProper (c : Coordinate) : Prop where
  group : ∀ part ∈ Text.segments '.' c.group, Path.IsSegment part
  artifact : Path.IsPart c.artifact
  version : Path.IsPart c.version

theorem IsProper.isPart (h : c.IsProper) :
    ∀ part ∈ Text.segments '.' c.group, Path.IsPart part := by
  intro part hpart
  have hdot := Text.not_mem_of_mem_segments hpart
  refine ⟨h.group part hpart, ?_, ?_⟩ <;> rintro rfl <;> exact hdot (by decide)

theorem IsProper.not_mem_group (h : c.IsProper) : '/' ∉ c.group.toList := by
  intro hmem
  obtain ⟨part, hpart, hslash⟩ := Text.exists_mem_splitOn hmem (show '/' ≠ '.' by decide)
  refine (h.group (String.ofList part) (List.mem_map_of_mem hpart)).no_slash ?_
  rwa [String.toList_ofList]

/-- The name of a library and its version tell the coordinate. -/
theorem ofLibrary_library (h : c.IsProper) : ofLibrary c.library c.version = c := by
  have hcut : Text.cutText? '/' c.library = some (c.group, c.artifact) := by
    have htext : c.library.toList = c.group.toList ++ '/' :: c.artifact.toList := by
      simp [library]
    rw [Text.cutText?, htext, Text.cut?_append h.not_mem_group]
    simp
  have hartifact : c.artifact.isEmpty = false := by simpa using h.artifact.ne_empty
  rw [ofLibrary, hcut]
  simp [hartifact]

/-- The names on the way from a repository to a file of the library. -/
def steps (c : Coordinate) (ending : String) : List String :=
  Text.segments '.' c.group ++ [c.artifact, c.version, c.artifact ++ "-" ++ c.version ++ ending]

theorem IsProper.isPart_file (h : c.IsProper) (hending : '/' ∉ ending.toList) :
    Path.IsPart (c.artifact ++ "-" ++ c.version ++ ending) := by
  have hdash : '-' ∈ (c.artifact ++ "-" ++ c.version ++ ending).toList := by simp
  refine ⟨⟨?_, ?_⟩, ?_, ?_⟩
  · intro heq
    rw [heq] at hdash
    exact absurd hdash (by decide)
  · simp [h.artifact.no_slash, h.version.no_slash, hending]
  · intro heq
    rw [heq] at hdash
    exact absurd hdash (by decide)
  · intro heq
    rw [heq] at hdash
    exact absurd hdash (by decide)

theorem names_file (h : c.IsProper) (hending : '/' ∉ ending.toList) (repository : Path) :
    (c.file repository ending).names = repository.names ++ c.steps ending := by
  have hfolder : c.folder =
      .ofNames (Text.segments '.' c.group ++ [c.artifact] ++ [c.version]) := by
    rw [folder, Path.foldl_div_of_isPart h.isPart, Path.div_of_isPart h.artifact,
      Path.div_of_isPart h.version]
    rfl
  rw [file, Path.div_of_isPart (h.isPart_file hending), hfolder, Path.names_entry,
    Path.join_ofNames, steps]
  simp only [List.append_assoc, List.cons_append, List.nil_append]

theorem IsProper.not_mem_steps (h : c.IsProper) (hending : '/' ∉ ending.toList) :
    ".." ∉ c.steps ending := by
  intro hmem
  rcases List.mem_append.1 hmem with hmem | hmem
  · exact (h.isPart _ hmem).ne_up rfl
  · simp only [List.mem_cons, List.not_mem_nil, or_false] at hmem
    rcases hmem with hup | hup | hup
    · exact h.artifact.ne_up hup.symm
    · exact h.version.ne_up hup.symm
    · exact (h.isPart_file hending).ne_up hup.symm

/-- What the path to a file leads to lies where the repository does, and from there on the way that
the coordinate tells. -/
theorem eq_append_of_locate (h : c.IsProper) (hending : '/' ∉ ending.toList)
    (hplace : t.locate (c.file repository ending) = .ok place) :
    ∃ base, t.go [] repository.names = .ok base ∧ place = base ++ c.steps ending := by
  obtain ⟨ns, hns, hgo⟩ := Except.bind_eq_ok hplace
  obtain rfl : ns = (c.file repository ending).names := by
    rw [Tree.namesOf] at hns
    split_ifs at hns
    exact (Except.ok.inj hns).symm
  rw [names_file h hending, Tree.go_append] at hgo
  obtain ⟨base, hbase, hgo⟩ := Except.bind_eq_ok hgo
  exact ⟨base, hbase, Tree.go_eq_ok (h.not_mem_steps hending) hgo⟩

theorem steps_inj (h : c.steps ending = c'.steps ending) : c = c' := by
  obtain ⟨hgroup, hrest⟩ := List.append_inj' h rfl
  simp only [List.cons.injEq] at hrest
  obtain ⟨hartifact, hversion, -⟩ := hrest
  cases c
  cases c'
  rw [mk.injEq]
  exact ⟨Text.segments_inj hgroup, hartifact, hversion⟩

/-- No two coordinates lead to the same place. -/
theorem eq_of_locate (h : c.IsProper) (h' : c'.IsProper) (hending : '/' ∉ ending.toList)
    (hplace : t.locate (c.file repository ending) = .ok place)
    (hplace' : t.locate (c'.file repository ending) = .ok place) : c = c' := by
  obtain ⟨base, hbase, rfl⟩ := eq_append_of_locate h hending hplace
  obtain ⟨base', hbase', hsame⟩ := eq_append_of_locate h' hending hplace'
  obtain rfl := Except.ok.inj (hbase.symm.trans hbase')
  exact steps_inj (List.append_cancel_left hsame)

end Coordinate

/-! ## Places for archives -/

namespace Tree

variable {t : Tree} {l : Location}

/-- All places where something is, each once. -/
def places (t : Tree) : List Location :=
  ([] :: (t.files.keys ++ t.folders).flatMap List.inits).eraseDups

theorem mem_places (h : t.isFile l = true ∨ t.isFolder l = true) : l ∈ t.places := by
  rw [places, List.mem_eraseDups, List.mem_cons, List.mem_flatMap]
  simp only [List.mem_inits, List.mem_append]
  rcases h with hfile | hfolder
  · exact .inr ⟨l, .inl (isFile_iff.1 hfile), List.prefix_refl l⟩
  · rcases isFolder_iff.1 hfolder with rfl | ⟨place, hplace, hle⟩ | ⟨place, hplace, hle, -⟩
    · exact .inl rfl
    · exact .inr ⟨place, .inr hplace, hle⟩
    · exact .inr ⟨place, .inl hplace, hle⟩

end Tree

namespace Repository

variable {r : Repository} {c : Coordinate} {p : Path}

/-- The places in the repository where something has the name of an archive, be it a file or a
folder. -/
def jars (r : Repository) : List Location :=
  match r.tree.go [] r.path.names with
  | .ok base => r.tree.places.filter fun l =>
      base.isPrefixOf l && Text.endsWith (Tree.lastName l) ".jar"
  | .error _ => []

/-- The archive of a library with proper coordinates is at a place of its own, which is one of those
that the repository has for archives. -/
theorem exists_jar_of_archive (h : c.IsProper) (harchive : r.archive c.library c.version = .ok p) :
    ∃ place ∈ r.jars, r.tree.locate (c.archive r.path) = .ok place := by
  obtain ⟨there, hhas, hthere⟩ := Except.bind_eq_ok harchive
  rw [Coordinate.ofLibrary_library h] at hhas
  obtain rfl : there = true := by
    cases there with
    | true => rfl
    | false => cases hthere
  obtain ⟨place, hplace, hsome⟩ := Tree.exists_of_holdsAt (Except.ok_of_mapError hhas)
  refine ⟨place, ?_, hplace⟩
  obtain ⟨base, hbase, rfl⟩ := Coordinate.eq_append_of_locate h (by decide) hplace
  have hlast : Tree.lastName (base ++ c.steps ".jar") =
      c.artifact ++ "-" ++ c.version ++ ".jar" := by
    rw [Tree.lastName, Coordinate.steps, List.getLast?_append, List.getLast?_append]
    rfl
  have hending : Text.endsWith (Tree.lastName (base ++ c.steps ".jar")) ".jar" = true := by
    rw [hlast, Text.endsWith, List.isSuffixOf_iff_suffix, String.toList_append]
    exact List.suffix_append _ _
  have hbelow : base.isPrefixOf (base ++ c.steps ".jar") = true :=
    List.isPrefixOf_iff_prefix.2 (List.prefix_append _ _)
  rw [jars, hbase]
  refine List.mem_filter.2 ⟨Tree.mem_places (Bool.or_eq_true_iff.1 hsome), ?_⟩
  rw [hbelow, hending]
  rfl

end Repository

end BuildFiles
