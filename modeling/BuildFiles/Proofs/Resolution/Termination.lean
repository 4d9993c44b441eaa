import BuildFiles.Proofs.LongIntegers
import BuildFiles.Proofs.Resolution.Concurrency
import BuildFiles.Proofs.Resolution.Coordinates
import BuildFiles.Proofs.Resolution.Expansion
import BuildFiles.Proofs.Resolution.Inheritance
import BuildFiles.Proofs.Resolution.Loading

/-!
# Resolution ends

Each level of a resolution takes in libraries that were not taken in before, whatever cycles there
are among dependencies. What bounds them are the places of their files: a library on the way to
another one has a description, and one with a version has an archive. So where coordinates lead to
places of their own, a way is no longer than there are files (`length_path_le`), and levels end by
themselves (`levelsEnd_of_explored`). Whatever a resolution allows beyond that changes nothing:
`resolution_ends`.
-/

namespace BuildFiles

/-- If each item of a list stands for one of another list, and no two for the same one, then the
first list is no longer than the second. -/
theorem length_le_of_forall_exists {α β : Type} {R : α → β → Prop} {l : List α} {bs : List β}
    (hl : l.Nodup) (h : ∀ a ∈ l, ∃ b ∈ bs, R a b)
    (hinj : ∀ a ∈ l, ∀ a' ∈ l, ∀ b, R a b → R a' b → a = a') : l.length ≤ bs.length := by
  obtain ⟨f, hf⟩ : ∃ f : (a : α) → a ∈ l → β, ∀ a ha, f a ha ∈ bs ∧ R a (f a ha) :=
    ⟨fun a ha => (h a ha).choose, fun a ha => (h a ha).choose_spec⟩
  have hnodup : (l.pmap f fun _ => id).Nodup :=
    hl.pmap fun a ha a' ha' hsame => hinj a ha a' ha' _ (hf a ha).2 (hsame ▸ (hf a' ha').2)
  have hsub : (l.pmap f fun _ => id) ⊆ bs := by
    intro b hb
    obtain ⟨a, ha, rfl⟩ := List.mem_pmap.1 hb
    exact (hf a ha).1
  simpa using (hnodup.subperm hsub).length_le

/-- A fault in what is read, and not that a computation was cut off. -/
def Fault.IsOfData : Fault → Prop
  | .resolution .endless | .endlessParents => False
  | _ => True

namespace Repository

variable {r : Repository} {c : Coordinate} {ds : List Dependency} {d : Dependency}

/-- A library with dependencies is described by a file. -/
theorem exists_place_of_follows (h : r.Follows [] c ds) (hd : d ∈ ds) :
    ∃ place ∈ r.tree.files.keys, r.tree.locate (c.pom r.path) = .ok place := by
  obtain ⟨pom, hpom, hds⟩ := h
  have hfile : ∃ root, r.description? c = .ok (some root) := by
    cases hpom with
    | known hknown => cases hknown
    | missing =>
      subst hds
      cases hd
    | alone _ hfile _ => exact ⟨_, hfile⟩
    | child _ hfile _ _ => exact ⟨_, hfile⟩
  obtain ⟨root, hroot⟩ := hfile
  obtain ⟨place, hplace, hroot⟩ := description?_eq_some.1 hroot
  obtain ⟨content, hget, -⟩ := Option.bind_eq_some_iff.1 hroot
  exact ⟨place, Tree.isFile_iff.1 (Tree.isFile_of_get? hget), hplace⟩

end Repository

namespace Resolution

variable {r : Repository} {m : Manifest} {aliases top : List String}
  {tops processed taken : List Selection} {visits : List Visit} {trace : List TraceRecord}
  {depth n : Nat} {found : List (Selection × List Dependency)} {s s' : Progress} {t t' : Selection}
  {place : Location} {ending : String}

/-! ## Libraries that occur -/

/-- The library is written in the version: in the manifest, or by the description of one that is
written. -/
inductive Occurs (r : Repository) (m : Manifest) (aliases : List String) : String → String → Prop
  | top {library : String} {d version : Datum} (htop : (m.topLevel aliases).get? library = some d)
    (hroot : partOf? (d.entries?.getD []) "local/root" = none)
    (hversion : partOf? (d.entries?.getD []) "mvn/version" = some version) :
    Occurs r m aliases library version.text
  | dependency {library version : String} {ds : List Dependency} {d : Dependency}
    (hlibrary : Occurs r m aliases library version)
    (hds : r.Follows [] (.ofLibrary library version) ds) (hd : d ∈ ds) :
    Occurs r m aliases d.library d.version

/-- All libraries that are written have names and versions that are those of a proper coordinate. A
name that is written without an artifact is none of these. -/
def OccursProperly (r : Repository) (m : Manifest) (aliases : List String) : Prop :=
  ∀ library version, Occurs r m aliases library version →
    ∃ c : Coordinate, c.IsProper ∧ c.library = library ∧ c.version = version

/-- If the library has a version, then it occurs in that version and has the archive of it. -/
def IsStocked (r : Repository) (m : Manifest) (aliases : List String) (t : Selection) : Prop :=
  ∀ v, t.version = some v → Occurs r m aliases t.library v ∧ r.archive t.library v = .ok t.archive

/-- Keeping selections by their libraries forgets none that count. -/
theorem forall_byLibrary {P : Selection → Prop} :
    (∀ e ∈ byLibrary taken, P e.2) ↔ ∀ t ∈ taken, P t := by
  rw [byLibrary, List.forall_mem_map]

/-- A library of the manifest is selected with a directory of its own and no version, or with the
version that the manifest has for it and the archive of that one. -/
theorem isStocked_of_topSelection {library : String} {d : Datum}
    (hd : (m.topLevel aliases).get? library = some d)
    (h : topSelection r m library d = .ok t) : IsStocked r m aliases t := by
  obtain ⟨exclusions, -, h⟩ := Except.bind_eq_ok h
  split at h
  · obtain ⟨root, -, h⟩ := Except.bind_eq_ok h
    obtain ⟨archive, -, h⟩ := Except.bind_eq_ok h
    obtain ⟨there, -, h⟩ := Except.bind_eq_ok h
    split at h <;> cases h
    exact nofun
  · cases h
  · next hroot hversion =>
    obtain ⟨version, hwritten, h⟩ := Except.bind_eq_ok h
    obtain ⟨archive, harchive, h⟩ := Except.bind_eq_ok h
    obtain ⟨-, rfl⟩ := Datum.written_eq_ok_iff.1 hwritten
    cases h
    rintro v ⟨⟩
    exact ⟨.top hd hroot hversion, harchive⟩

/-- Each library of the manifest that is selected with a version has one that occurs, and the
archive of that version. -/
theorem isStocked_of_topSelections (h : topSelections r m (m.topLevel aliases) = .ok tops) :
    ∀ t ∈ tops, IsStocked r m aliases t := by
  intro t ht
  have htop := topSelection_of_mem h ht
  rcases hd : (m.topLevel aliases).get? t.library with _ | d
  · have hnames : t.library ∈ (m.topLevel aliases).keys := by
      rw [← Text.mem_sorted, ← libraryNames_of_topSelections h]
      exact List.mem_map_of_mem ht
    exact absurd hnames (Entries.get?_eq_none_iff.1 hd)
  · rw [hd] at htop
    exact isStocked_of_topSelection hd htop

/-- What a meeting takes in occurs, since it is a dependency of what does, and has its archive. -/
theorem isStocked_of_meets {v : Visit} (hs : ∀ e ∈ s.selected, IsStocked r m aliases e.2)
    (hv : Occurs r m aliases v.dependency.library v.dependency.version)
    (h : Meets r top v s s') : ∀ e ∈ s'.selected, IsStocked r m aliases e.2 := by
  cases h with
  | excluded | useTop | kept => exact hs
  | @taken archive _ _ _ harchive =>
    have hold : ∀ e ∈ s.selected, True ∧ IsStocked r m aliases e.2 :=
      fun e he => ⟨trivial, hs e he⟩
    have hnew : ∀ e ∈ [(v.dependency.library, v.taken archive)],
        True ∧ IsStocked r m aliases e.2 := by
      refine List.forall_mem_singleton.2 ⟨trivial, ?_⟩
      rintro version ⟨⟩
      exact ⟨hv, harchive⟩
    exact fun e he => (Entries.forall_insertAll (P := fun _ => True) hold hnew e he).2

/-- After a level everything that is selected is stocked if everything was before it: what is new
comes of a dependency that is followed, and so it occurs in the version that is looked for. -/
theorem isStocked_of_level {after : PomCache} (hs : ∀ e ∈ s.selected, IsStocked r m aliases e.2)
    (hnext : ∀ t ∈ s.next, IsStocked r m aliases t)
    (hrun : (level r top s).Yields [] s' after) : ∀ e ∈ s'.selected, IsStocked r m aliases e.2 := by
  obtain ⟨options, mid, hfound, hlift⟩ := hrun.bind
  obtain ⟨-, hoptions⟩ := hfound.aside.mapM (I := r.Extends [])
    (R := fun s o => Found r [] [s] o.toList)
    (fun _ _ _ _ hextends ho => dependsOn_of_yields hextends ho) (.refl r [])
  obtain ⟨hmeet, rfl⟩ := hlift.lift
  have hmore := found_of_forall₂ hoptions
  -- the loop over the libraries, and within it the loop over the dependencies of one
  refine hmeet.foldlM [] (P := fun _ s => ∀ e ∈ s.selected, IsStocked r m aliases e.2) ?_ hs
  intro _ f s s' hf hs hmeetAll
  refine hmeetAll.foldlM [] (P := fun _ s => ∀ e ∈ s.selected, IsStocked r m aliases e.2) ?_ hs
  intro _ d s s' hd hs hmeet
  obtain ⟨version, hversion, hfollows⟩ := hmore.follows f hf
  have hparent := (hnext f.1 (hmore.mem hf) version hversion).1
  exact isStocked_of_meets hs (.dependency hparent hfollows hd) (meets_of_yields hmeet)

/-! ## Between two levels -/

/-- What holds between two levels: what `Explored` says, and that what is taken in is stocked. -/
structure Reached (r : Repository) (m : Manifest) (aliases : List String)
    (tops processed : List Selection) (depth : Nat) (found : List (Selection × List Dependency))
    (s : Progress) : Prop where
  leading : ∀ t ∈ tops, t.path = []
  explored : Explored r [] (m.topLevel aliases).keys tops processed depth found s
  stocked : ∀ t ∈ processed ++ s.next, IsStocked r m aliases t

/-- Where the resolution starts: nothing has been processed, and the first level is the libraries of
the manifest. -/
theorem reached_of_topSelections (h : topSelections r m (m.topLevel aliases) = .ok tops) :
    Reached r m aliases tops [] 0 [] (start tops) where
  leading _ ht := (topSelection_spec (topSelection_of_mem h ht)).2.1
  explored := explored_of_topSelections h []
  stocked := isStocked_of_topSelections h

/-- On the way to a library stand libraries that were taken in, on level after level, and that have
dependencies. -/
theorem Decided.exists_chain (h : Decided tops visits taken trace)
    (htops : ∀ t ∈ tops, t.path = []) :
    ∀ t ∈ taken, ∃ chain : List Selection, chain.map (·.library) = t.path ∧
      chain.map (·.path.length) = List.range t.path.length ∧
      ∀ x ∈ chain, ∃ v ∈ visits, v.parent = x := by
  -- along what was taken in, from a library to the one that it was found by
  refine h.induction ?_ ?_
  · intro t ht
    rw [htops t ht]
    exact ⟨[], rfl, rfl, nofun⟩
  · rintro v hv archive - - ⟨chain, hpath, hlength, hvisits⟩
    refine ⟨chain ++ [v.parent], ?_, ?_, ?_⟩
    · rw [List.map_append, hpath]
      rfl
    · have hway : (v.taken archive).path.length = v.parent.path.length + 1 := List.length_append
      rw [List.map_append, hlength, hway, List.range_succ]
      rfl
    · intro x hx
      rcases List.mem_append.1 hx with hx | hx
      · exact hvisits x hx
      · exact ⟨v, hv, (List.mem_singleton.1 hx).symm⟩

/-- The library has a file of that ending, which is at the place. -/
def LiesAt (r : Repository) (ending : String) (t : Selection) (place : Location) : Prop :=
  ∃ v, t.version = some v ∧
    r.tree.locate ((Coordinate.ofLibrary t.library v).file r.path ending) = .ok place

namespace Reached

/-- Whatever is processed has been decided, with the reasons in the trace. -/
theorem decided (h : Reached r m aliases tops processed depth found s) :
    Decided tops (found.flatMap visitsOf) (processed ++ s.next) s.trace :=
  h.explored.underway.decided

/-- No selection is processed twice. -/
theorem nodup (h : Reached r m aliases tops processed depth found s) :
    (processed ++ s.next).Nodup :=
  .of_map _ h.decided.unique

/-- A level more: what was next has been processed, and something may have been found. -/
theorem level {after : PomCache} (h : Reached r m aliases tops processed depth found s)
    (hrun : (Resolution.level r (m.topLevel aliases).keys s).Yields [] s' after) :
    ∃ more, Reached r m aliases tops (processed ++ s.next) (depth + 1) (found ++ more) s' := by
  obtain ⟨-, more, hmore⟩ := h.explored.level (.refl r []) hrun
  have hselected : ∀ e ∈ s.selected, IsStocked r m aliases e.2 := by
    rw [h.explored.underway.selected]
    exact forall_byLibrary.2 h.stocked
  have hstocked := isStocked_of_level hselected
    (fun t ht => h.stocked t (List.mem_append_right _ ht)) hrun
  rw [hmore.underway.selected] at hstocked
  exact ⟨more, h.leading, hmore, forall_byLibrary.1 hstocked⟩

/-- No two libraries that are taken in have a file at the same place. -/
theorem eq_of_liesAt (h : Reached r m aliases tops processed depth found s)
    (hproper : OccursProperly r m aliases) (hending : '/' ∉ ending.toList)
    (ht : t ∈ processed ++ s.next) (ht' : t' ∈ processed ++ s.next)
    (hplace : LiesAt r ending t place) (hplace' : LiesAt r ending t' place) : t = t' := by
  obtain ⟨v, hv, hplace⟩ := hplace
  obtain ⟨v', hv', hplace'⟩ := hplace'
  obtain ⟨c, hc, hlibrary, rfl⟩ := hproper _ _ (h.stocked t ht v hv).1
  obtain ⟨c', hc', hlibrary', rfl⟩ := hproper _ _ (h.stocked t' ht' v' hv').1
  rw [← hlibrary, Coordinate.ofLibrary_library hc] at hplace
  rw [← hlibrary', Coordinate.ofLibrary_library hc'] at hplace'
  obtain rfl := Coordinate.eq_of_locate hc hc' hending hplace hplace'
  exact eq_of_library_eq h.decided.unique ht ht' (hlibrary.symm.trans hlibrary')

/-- Each library with a version has a place for archives of its own. -/
theorem length_le_jars (h : Reached r m aliases tops processed depth found s)
    (hproper : OccursProperly r m aliases) :
    ((processed ++ s.next).filter (·.version.isSome)).length ≤ r.jars.length := by
  refine length_le_of_forall_exists (R := LiesAt r ".jar") (h.nodup.filter _) ?_ ?_
  · intro t ht
    obtain ⟨ht, hversion⟩ := List.mem_filter.1 ht
    obtain ⟨v, hv⟩ := Option.isSome_iff_exists.1 hversion
    obtain ⟨hoccurs, harchive⟩ := h.stocked t ht v hv
    obtain ⟨c, hc, hlibrary, rfl⟩ := hproper _ _ hoccurs
    rw [← hlibrary] at harchive
    obtain ⟨place, hjar, hplace⟩ := Repository.exists_jar_of_archive hc harchive
    refine ⟨place, hjar, c.version, hv, ?_⟩
    rw [← hlibrary, Coordinate.ofLibrary_library hc]
    exact hplace
  · intro t ht t' ht' place hplace hplace'
    exact h.eq_of_liesAt hproper (by decide) (List.mem_filter.1 ht).1 (List.mem_filter.1 ht').1
      hplace hplace'

/-- The libraries on a way are of different levels, so they are different, and each has an archive
of its own. This bounds the ways by the number of files. -/
theorem length_path_le (h : Reached r m aliases tops processed depth found s)
    (hproper : OccursProperly r m aliases) (ht : t ∈ processed ++ s.next) :
    t.path.length ≤ r.tree.files.length := by
  obtain ⟨chain, hpath, hlength, hvisits⟩ := h.decided.exists_chain h.leading t ht
  -- each library on the chain is of another level, so no cycle of dependencies is on it
  have hnodup : chain.Nodup := .of_map (fun x => x.path.length) (hlength ▸ List.nodup_range)
  have hmem : ∀ x ∈ chain, x ∈ processed ++ s.next := by
    intro x hx
    obtain ⟨v, hv, rfl⟩ := hvisits x hx
    exact h.decided.parents v hv
  have hle : chain.length ≤ r.tree.files.keys.length := by
    refine length_le_of_forall_exists (R := LiesAt r ".pom") hnodup ?_ ?_
    · intro x hx
      obtain ⟨v, hv, rfl⟩ := hvisits x hx
      obtain ⟨ds, hf, hd⟩ := mem_flatMap_visitsOf.1 hv
      obtain ⟨version, hversion, hfollows⟩ := h.explored.all.follows _ hf
      obtain ⟨place, hfile, hplace⟩ := Repository.exists_place_of_follows hfollows hd
      exact ⟨place, hfile, version, hversion, hplace⟩
    · intro x hx x' hx' place hplace hplace'
      exact h.eq_of_liesAt hproper (by decide) (hmem x hx) (hmem x' hx') hplace hplace'
  rw [Entries.keys, List.length_map] at hle
  rwa [← hpath, List.length_map]

end Reached

/-! ## Faults -/

/-- A result that is no fault but one of data. -/
abbrev EndsByData {α : Type} : Except Fault α → Prop := Except.FailsBy Fault.IsOfData

/-- Faults of the file system are faults of the data. -/
theorem endsByData_mapError {α : Type} (x : Except FileFault α) :
    EndsByData (x.mapError Fault.file) := by
  intro e he
  obtain ⟨f, -, rfl⟩ := Except.eq_error_of_mapError he
  trivial

theorem endsByData_resolved (base p : Path) : EndsByData (base.resolved p) := by
  unfold Path.resolved
  split
  · exact .error trivial
  · exact .ok _

theorem endsByData_sourceEntries (m : Manifest) (aliases : List String) :
    EndsByData (m.sourceEntries aliases) :=
  .mapM fun e _ => (endsByData_resolved m.folder (.parse e.1)).map _

theorem endsByData_archive (r : Repository) (library version : String) :
    EndsByData (r.archive library version) := by
  refine (endsByData_mapError _).bind fun there => ?_
  cases there with
  | false => exact .error trivial
  | true => exact .ok _

/-- A datum that cannot be shown is one, too. -/
theorem endsByData_written (d : Datum) : EndsByData d.written := by
  intro e he
  rw [Datum.failsBy_written d e he]
  trivial

/-- A library of the manifest cannot be taken in for what the manifest says of it, for an archive
that is missing, or for what the file system answers; no search is cut off on the way. -/
theorem endsByData_topSelection (r : Repository) (m : Manifest) (library : String) (d : Datum) :
    EndsByData (topSelection r m library d) := by
  have hexclusions : ∀ coordinate, EndsByData (exclusionsOf coordinate) := by
    intro coordinate
    unfold exclusionsOf
    split
    · exact .ok _
    · split
      · refine (Except.FailsBy.mapM fun d _ => ?_).bind fun _ => .ok _
        exact (endsByData_written d).bind fun _ => .ok _
      · exact .error trivial
  refine (hexclusions _).bind fun exclusions => ?_
  split
  · refine (endsByData_written _).bind fun root => ?_
    refine (endsByData_resolved _ _).bind fun archive => ?_
    refine (endsByData_mapError _).bind fun there => ?_
    cases there with
    | false => exact .error trivial
    | true => exact .ok _
  · exact .error (Fault.of_showing d trivial trivial)
  · refine (endsByData_written _).bind fun version => ?_
    exact (endsByData_archive r _ version).bind fun _ => .ok _

/-- A description whose chain of parents comes to an end is told, or it fails for what some file
holds. -/
theorem endsByData_told {c : Coordinate} (h : r.Ends c) : EndsByData (r.told c) := by
  intro e htold
  obtain ⟨x, -, hdamage⟩ := (Repository.toldWithin_eq_error h).1 htold
  cases Repository.isDamage_of_description? hdamage <;> trivial

/-- Following the dependencies of a description fails by its data only. -/
theorem ends_followed (p : Pom) (c : Coordinate) :
    (p.followed c).Ends Fault.IsOfData fun _ => True := by
  refine Logged.Ends.bind (Logged.Ends.mapM (fun mention => ?_) _) fun _ _ => .pure trivial
  unfold Pom.follow
  split
  · have hdependency : EndsByData (p.dependency c mention) := by
      unfold Pom.dependency
      dsimp only
      split
      · exact .error trivial
      · exact .ok _
    exact (Logged.Ends.of_failsBy hdependency).bind fun _ _ => .pure trivial
  · exact (Logged.Returns.say _).bind_ends (.pure trivial)

/-- Meeting a dependency does as well. -/
theorem ends_meet (r : Repository) (top : List String) (parent : Selection) (s : Progress)
    (d : Dependency) : (meet r top parent s d).Ends Fault.IsOfData fun _ => True := by
  unfold meet
  split
  · exact .pure trivial
  · split
    · exact .pure trivial
    · split
      · split
        · exact .pure trivial
        · exact (Logged.Returns.say _).bind_ends (.pure trivial)
      · exact (Logged.Ends.of_failsBy (endsByData_archive r _ _)).bind fun _ _ => .pure trivial

/-- A whole level ends by data as well, since meeting each of its dependencies does. -/
theorem endsByData_toldLevel (hends : ∀ c, r.Ends c) (top : List String) (s : Progress) :
    EndsByData (toldLevel r top s) := by
  have hdependencies : ∀ c, EndsByData (r.toldDependencies c) := by
    intro c
    refine (endsByData_told (hends c)).bind fun pom => ?_
    cases pom with
    | none => exact .ok _
    | some pom => exact Except.failsBy_iff.2 (ends_followed pom c).outcome
  have hfound : EndsByData (toldFound r s.next) := by
    refine Except.FailsBy.mapM ?_
    rintro ⟨t, c⟩ -
    exact (hdependencies c).bind fun _ => .ok _
  refine hfound.bind fun found => Except.failsBy_iff.2 (Logged.Ends.foldlM ?_ found _).outcome
  exact fun s f => Logged.Ends.foldlM (ends_meet r top f.1) f.2 s

/-! ## Levels that end by themselves -/

/-- After at most that many levels nothing is left to be gone through, unless a level fails. -/
def LevelsEnd (r : Repository) (top : List String) : Nat → Progress → Prop
  | 0, s => s.next = []
  | n + 1, s => s.next ≠ [] → ∀ s', toldLevel r top s = .ok s' → LevelsEnd r top n s'

/-- With nothing next there is no further level. -/
theorem levelsEnd_of_nil (hnext : s.next = []) (n : Nat) : LevelsEnd r top n s := by
  cases n with
  | zero => exact hnext
  | succ n => exact fun hne => absurd hnext hne

/-- So the resolution is over, with whatever fuel. -/
theorem toldLevels_of_nil (hnext : s.next = []) (n : Nat) : toldLevels r top n s = .ok s := by
  cases n <;> rw [toldLevels, if_pos (by simp [hnext])]

/-- With something next, and fuel, a level is taken. -/
theorem toldLevels_succ (hnext : s.next ≠ []) (n : Nat) :
    toldLevels r top (n + 1) s = toldLevel r top s >>= toldLevels r top n := by
  rw [toldLevels, if_neg (by simpa using hnext)]

/-- It does not matter how many levels more than needed there may be. -/
theorem LevelsEnd.toldLevels_eq {k : Nat} (h : LevelsEnd r top n s) (h' : LevelsEnd r top k s) :
    toldLevels r top n s = toldLevels r top k s := by
  induction n generalizing s k with
  | zero => rw [toldLevels_of_nil h, toldLevels_of_nil h]
  | succ n ih =>
    by_cases hnext : s.next = []
    · rw [toldLevels_of_nil hnext, toldLevels_of_nil hnext]
    cases k with
    | zero => exact absurd h' hnext
    | succ k =>
      rw [toldLevels_succ hnext, toldLevels_succ hnext]
      cases hlevel : toldLevel r top s with
      | error e => rfl
      | ok s' => exact ih (h hnext s' hlevel) (h' hnext s' hlevel)

/-- Going on level by level, as long as there is something to go through, leads through those
frontiers to a state: each frontier is what a level was entered with. -/
inductive Passes (r : Repository) (top : List String) (initial : Progress) :
    List (List Selection) → Progress → Prop
  | start : Passes r top initial [] initial
  | level {frontiers : List (List Selection)} {s s' : Progress}
    (hbefore : Passes r top initial frontiers s) (hnext : s.next ≠ [])
    (hlevel : r.Settles (level r top s) (.ok s')) : Passes r top initial (frontiers ++ [s.next]) s'

/-- Levels that end come to a result, or fail by the data. -/
theorem ends_toldLevels (hends : ∀ c, r.Ends c) (h : LevelsEnd r top n s) {initial : Progress}
    {frontiers : List (List Selection)} (hpasses : Passes r top initial frontiers s) :
    Except.Ends Fault.IsOfData
      (fun s' => s'.next = [] ∧ ∃ frontiers, Passes r top initial frontiers s')
      (toldLevels r top n s) := by
  induction n generalizing s frontiers with
  | zero =>
    rw [toldLevels_of_nil h]
    exact ⟨h, frontiers, hpasses⟩
  | succ n ih =>
    by_cases hnext : s.next = []
    · rw [toldLevels_of_nil hnext]
      exact ⟨hnext, frontiers, hpasses⟩
    · rw [toldLevels_succ hnext]
      refine (Except.failsBy_iff.1 (endsByData_toldLevel hends top s)).bind fun s' hlevel _ => ?_
      exact ih (h hnext s' hlevel) (hpasses.level hnext (hlevel ▸ settles_level hends top s))

/-- What settles gives its value, from nothing known. -/
theorem yields_of_settles {α : Type} {x : Resolving α} {a : α} (h : r.Settles x (.ok a)) :
    ∃ after, x.Yields [] a after := by
  obtain ⟨known, said, hrun, -⟩ := h [] r.isTrue_nil []
  exact ⟨known, [], said, hrun⟩

/-- After some passes the resolution is at a place that can be reached. -/
theorem Passes.reached {frontiers : List (List Selection)}
    (htops : topSelections r m (m.topLevel aliases) = .ok tops)
    (h : Passes r (m.topLevel aliases).keys (Resolution.start tops) frontiers s) :
    ∃ found, Reached r m aliases tops frontiers.flatten frontiers.length found s := by
  induction h with
  | start => exact ⟨[], reached_of_topSelections htops⟩
  | @level frontiers s s' _ _ hlevel ih =>
    obtain ⟨found, hreached⟩ := ih
    obtain ⟨after, hrun⟩ := yields_of_settles hlevel
    obtain ⟨more, hmore⟩ := hreached.level hrun
    rw [List.flatten_append, List.flatten_singleton, List.length_append]
    exact ⟨found ++ more, hmore⟩

/-- What is taken in on a level is reached by a way as long as there were levels before. -/
theorem Reached.depth_le (h : Reached r m aliases tops processed depth found s)
    (hproper : OccursProperly r m aliases) (hnext : s.next ≠ []) :
    depth ≤ r.tree.files.length := by
  obtain ⟨t, rest, hcons⟩ := List.exists_cons_of_ne_nil hnext
  have ht : t ∈ s.next := hcons ▸ List.mem_cons_self
  rw [← h.explored.underway.next t ht]
  exact h.length_path_le hproper (List.mem_append_right _ ht)

/-- Levels end because their number is bounded by that of the files: a chain of selections goes
through archives that are all different. -/
theorem Reached.levelsEnd (hends : ∀ c, r.Ends c) (hproper : OccursProperly r m aliases)
    (h : Reached r m aliases tops processed depth found s)
    (hn : r.tree.files.length < n + depth) : LevelsEnd r (m.topLevel aliases).keys n s := by
  -- what is still allowed and what is behind are together more than the files there are
  induction n generalizing processed depth found s with
  | zero =>
    by_contra hnext
    have hle := h.depth_le hproper hnext
    omega
  | succ n ih =>
    intro _ s' hlevel
    obtain ⟨after, hrun⟩ := yields_of_settles (hlevel ▸ settles_level hends _ s)
    obtain ⟨more, hmore⟩ := h.level hrun
    exact ih hmore (by omega)

/-! ## Whole resolutions -/

/-- A tree has at least the size that it has files. -/
theorem length_files_le (t : Tree) : t.files.length ≤ t.size := by
  have hfoldl : ∀ (files : List (Location × ByteArray)) (n : Nat),
      n + files.length ≤ files.foldl (fun n e => n + 1 + e.2.size) n := by
    intro files
    induction files with
    | nil => exact fun n => Nat.le_refl n
    | cons e files ih =>
      intro n
      refine Nat.le_trans ?_ (ih (n + 1 + e.2.size))
      rw [List.length_cons]
      omega
  have hsize := hfoldl t.files 0
  rwa [Nat.zero_add] at hsize

/-- Fuel matters only as far as the levels do. -/
theorem toldWithin_congr {fuel fuel' : Nat}
    (h : ∀ tops, topSelections r m (m.topLevel aliases) = .ok tops →
      toldLevels r (m.topLevel aliases).keys fuel (start tops) =
        toldLevels r (m.topLevel aliases).keys fuel' (start tops)) :
    toldWithin r m aliases fuel = toldWithin r m aliases fuel' := by
  unfold toldWithin
  cases m.sourceEntries aliases with
  | error e => rfl
  | ok sources =>
    cases htops : topSelections r m (m.topLevel aliases) with
    | error e => rfl
    | ok tops =>
      rw [Except.bind_of_ok rfl, Except.bind_of_ok rfl, Except.bind_of_ok rfl,
        Except.bind_of_ok rfl, h tops htops]

/-- So the levels end from the start, if there is more fuel than files. -/
theorem levelsEnd_of_topSelections (hends : ∀ c, r.Ends c) (hproper : OccursProperly r m aliases)
    (htops : topSelections r m (m.topLevel aliases) = .ok tops)
    (hn : m.topLevel aliases = [] ∨ r.tree.files.length < n) :
    LevelsEnd r (m.topLevel aliases).keys n (start tops) := by
  rcases hn with hnone | hn
  · have hnames := libraryNames_of_topSelections htops
    rw [hnone] at hnames
    have hnil : tops = [] := List.map_eq_nil_iff.1 (hnames.trans (Text.sorted_perm []).eq_nil)
    exact levelsEnd_of_nil (by rw [hnil]; rfl) n
  · exact (reached_of_topSelections htops).levelsEnd hends hproper hn

/-- What the files tell of a resolution does not depend on how many levels more than needed are
allowed. -/
theorem toldWithin_eq (hends : ∀ c, r.Ends c) (hproper : OccursProperly r m aliases)
    (hn : m.topLevel aliases = [] ∨ r.tree.files.length < n) :
    toldWithin r m aliases n = toldWithin r m aliases (r.tree.files.length + 1) :=
  toldWithin_congr fun _ htops =>
    (levelsEnd_of_topSelections hends hproper htops hn).toldLevels_eq
      (levelsEnd_of_topSelections hends hproper htops (.inr (Nat.lt_succ_self _)))

/-- The resolution has come to the state by going through the frontiers, and nothing is left. -/
def ComesTo (r : Repository) (m : Manifest) (aliases : List String) (s : Progress) : Prop :=
  s.next = [] ∧ ∃ tops frontiers, topSelections r m (m.topLevel aliases) = .ok tops ∧
    Passes r (m.topLevel aliases).keys (start tops) frontiers s

/-- With one more than the number of files, every resolution comes to a result or fails by its
data. -/
theorem ends_toldWithin (hends : ∀ c, r.Ends c) (hproper : OccursProperly r m aliases) :
    Except.Ends Fault.IsOfData (fun p => ComesTo r m aliases p.1)
      (toldWithin r m aliases (r.tree.files.length + 1)) := by
  refine (Except.failsBy_iff.1 (endsByData_sourceEntries m aliases)).bind fun sources _ _ => ?_
  have htopSelections : EndsByData (topSelections r m (m.topLevel aliases)) :=
    .mapM fun _ _ => endsByData_topSelection r m _ _
  refine (Except.failsBy_iff.1 htopSelections).bind fun tops htops _ => ?_
  have hlevels := levelsEnd_of_topSelections hends hproper htops (.inr (Nat.lt_succ_self _))
  refine (ends_toldLevels hends hlevels .start).bind fun s _ hs => ?_
  obtain ⟨hnext, frontiers, hpasses⟩ := hs
  exact ⟨hnext, tops, frontiers, htops, hpasses⟩

/-- Where no chain of parents comes back to itself and what occurs is named properly, a resolution
ends, whatever dependencies there are: with any more levels allowed than there are files it comes to
the same result, which is that of `resolve`; and if this is a fault, then one of data. The frontiers
that it goes through are no more than one for each file and the first, and the libraries in them are
all different. At any time those that are selected are the libraries of the frontiers so far, and
those of them that have a version are no more than the repository has archives. -/
theorem resolution_ends (hacyclic : r.IsAcyclic) (hproper : OccursProperly r m aliases) :
    (∃ result : Except Fault (Progress × Basis),
      Except.Ends Fault.IsOfData (fun p => ComesTo r m aliases p.1) result ∧
      (∀ n, r.tree.files.length < n → r.Settles (within r m aliases n) result) ∧
      r.Settles (resolve r m aliases) (result.map Prod.snd)) ∧
    ∀ tops frontiers s, topSelections r m (m.topLevel aliases) = .ok tops →
      Passes r (m.topLevel aliases).keys (start tops) frontiers s →
        frontiers.length ≤ r.tree.files.length + 1 ∧
        (libraryNames (frontiers.flatten ++ s.next)).Nodup ∧
        s.selected.values = frontiers.flatten ++ s.next ∧
        (s.selected.values.filter (·.version.isSome)).length ≤ r.jars.length := by
  have hends := hacyclic.ends
  refine ⟨⟨_, ends_toldWithin hends hproper, fun n hn => ?_, ?_⟩, ?_⟩
  · rw [← toldWithin_eq hends hproper (.inr hn)]
    exact settles_within hends m aliases n
  · have henough : m.topLevel aliases = [] ∨
        r.tree.files.length < (m.topLevel aliases).length + r.tree.size := by
      rcases List.eq_nil_or_concat (m.topLevel aliases) with hnone | ⟨es, e, hsome⟩
      · exact .inl hnone
      · have hsize := length_files_le r.tree
        rw [hsome, List.concat_eq_append, List.length_append, List.length_singleton]
        exact .inr (by omega)
    have hresolve := settles_resolve hends m aliases
    rw [toldWithin_eq hends hproper henough] at hresolve
    cases hresult : toldWithin r m aliases (r.tree.files.length + 1) <;>
      rw [hresult] at hresolve <;> exact hresolve
  · intro tops frontiers s htops hpasses
    obtain ⟨found, hreached⟩ := hpasses.reached htops
    have hvalues : s.selected.values = frontiers.flatten ++ s.next := by
      rw [hreached.explored.underway.selected, Entries.values, byLibrary, List.map_map]
      exact List.map_id _
    refine ⟨?_, hreached.decided.unique, hvalues, hvalues ▸ hreached.length_le_jars hproper⟩
    cases hpasses with
    | start => exact Nat.zero_le _
    | level hbefore hnext _ =>
      obtain ⟨_, hbefore⟩ := hbefore.reached htops
      rw [List.length_append]
      exact Nat.succ_le_succ (hbefore.depth_le hproper hnext)

/-! ## A ring of dependencies -/

/-- What describes a library that depends on `g/a`. -/
def ringText : String :=
  "<a><dependencies><dependency><groupId>g</groupId><artifactId>a</artifactId>" ++
    "<version>1</version></dependency></dependencies></a>"

/-- A repository with a library that depends on itself, and another one that does so on it. -/
def ring : Repository where
  tree.files := [
    (["r", "g", "a", "1", "a-1.jar"], "".toUTF8),
    (["r", "g", "a", "1", "a-1.pom"], ringText.toUTF8),
    (["r", "g", "b", "1", "b-1.jar"], "".toUTF8),
    (["r", "g", "b", "1", "b-1.pom"], ringText.toUTF8)]
  path := .parse "/r"

/-- A manifest that names one library of the ring. -/
def ringManifest : Manifest where
  path := .parse "/w/deps.edn"
  deps := [("g/b", .map [(.str "mvn/version", .str "1")])]

/-- The element has no name space and names no parent, and what it mentions are dependencies on
`g/a`. -/
def dependsPlainly (root : Xml.Element) : Bool :=
  root.name.space == "" && (root.named (some "") "parent").isEmpty &&
    (Pom.mentionsIn (some "") (root.named (some "") "dependencies")).all fun mention =>
      mention.group == "g" && mention.artifact == "a" && mention.version == "1"

/-- Every description in the ring depends on the next library in the plainest way. -/
theorem dependsPlainly_of_description? {c : Coordinate} {root : Xml.Element}
    (h : ring.description? c = .ok (some root)) : dependsPlainly root = true := by
  have hnone : Xml.parse? "" = none := by decide +kernel
  have hplain : (Xml.parse? ringText).all dependsPlainly = true := by decide +kernel
  obtain ⟨place, -, hfile⟩ := Repository.description?_eq_some.1 h
  obtain ⟨content, hget, -⟩ := Option.bind_eq_some_iff.1 hfile
  have hmem : place ∈ ring.tree.files.keys := Tree.isFile_iff.1 (Tree.isFile_of_get? hget)
  simp only [ring, Entries.keys, List.map_cons, List.map_nil, List.mem_cons, List.not_mem_nil,
    or_false] at hmem
  have hroot : Xml.parse? "" = some root ∨ Xml.parse? ringText = some root := by
    rcases hmem with rfl | rfl | rfl | rfl
    · exact .inl ((Repository.rootAt?_of_text rfl (by decide +kernel)).symm.trans hfile)
    · exact .inr ((Repository.rootAt?_of_text rfl (by decide +kernel)).symm.trans hfile)
    · exact .inl ((Repository.rootAt?_of_text rfl (by decide +kernel)).symm.trans hfile)
    · exact .inr ((Repository.rootAt?_of_text rfl (by decide +kernel)).symm.trans hfile)
  rcases hroot with hroot | hroot
  · rw [hnone] at hroot
    cases hroot
  · simpa only [hroot, Option.all_some] using hplain

/-- So it has no parent, and mentions one coordinate only. -/
theorem mentions_of_dependsPlainly {root : Xml.Element} (h : dependsPlainly root = true) :
    Pom.parent? root = none ∧ ∀ c inherited, ∀ mention ∈ (Pom.ofElement c inherited root).mentions,
      mention.group = "g" ∧ mention.artifact = "a" ∧ mention.version = "1" := by
  simp only [dependsPlainly, Bool.and_eq_true, beq_iff_eq, List.all_eq_true, List.isEmpty_iff] at h
  obtain ⟨⟨hname, hparent⟩, hmentions⟩ := h
  have hspace : Pom.spaceOf root = some "" := by
    rw [Pom.spaceOf, hname]
    simp
  refine ⟨?_, fun c inherited mention hmention => ?_⟩
  · rw [Pom.parent?, hspace, hparent]
    rfl
  · rw [Pom.ofElement, hspace] at hmention
    obtain ⟨⟨hgroup, hartifact⟩, hversion⟩ := hmentions mention hmention
    exact ⟨hgroup, hartifact, hversion⟩

theorem parent?_ring {c : Coordinate} {root : Xml.Element}
    (h : ring.description? c = .ok (some root)) : Pom.parent? root = none :=
  (mentions_of_dependsPlainly (dependsPlainly_of_description? h)).1

/-- The chains of parents in the ring are as short as can be, though its dependencies go round. -/
theorem isAcyclic_ring : ring.IsAcyclic := by
  intro c hcycle
  obtain ⟨p, hp, -⟩ := Relation.TransGen.head'_iff.1 hcycle
  obtain ⟨root, hroot, hp⟩ := Repository.isParent_iff.1 hp
  rw [parent?_ring hroot] at hp
  cases hp

/-- Whatever a library of the ring depends on, it is the first one, `g/a`; none is excluded and
nothing is inherited. -/
theorem eq_of_follows_ring {c : Coordinate} {ds : List Dependency} {d : Dependency}
    (h : ring.Follows [] c ds) (hd : d ∈ ds) : d.library = "g/a" ∧ d.version = "1" := by
  obtain ⟨pom, hpom, hds⟩ := h
  cases hpom with
  | known hknown => cases hknown
  | missing =>
    subst hds
    cases hd
  | @alone _ root _ hfile _ =>
    obtain ⟨-, hmentions⟩ := mentions_of_dependsPlainly (dependsPlainly_of_description? hfile)
    obtain ⟨mention, hmention, hanswers⟩ :=
      exists_left_of_forall₂ (Pom.yields_followed_iff.1 hds) hd
    have hmention := List.mem_of_mem_filter (List.mem_of_mem_filter hmention)
    obtain ⟨hgroup, hartifact, hversion⟩ := hmentions c {} mention hmention
    generalize Pom.ofElement c {} root = p at hanswers
    have hplain : ∀ s : String, '$' ∉ s.toList → p.properties.expand s = s :=
      fun s hs => Properties.expand_of_substitute (Properties.substitute_of_not_mem hs)
    have hone : p.properties.expand mention.version = "1" := hversion ▸ hplain "1" (by decide)
    refine ⟨?_, ?_⟩
    · rw [hanswers.library, Pom.libraryOf, hgroup, hartifact, hplain "g" (by decide),
        hplain "a" (by decide)]
      decide
    · rcases hanswers.version with ⟨-, h⟩ | ⟨h, -⟩
      · rw [h, hone, hplain "1" (by decide)]
      · rw [hone] at h
        exact absurd h (by decide)
  | child _ hfile hparent _ =>
    rw [parent?_ring hfile] at hparent
    cases hparent

/-- What occurs in the ring has plain coordinates: no part is empty or holds a stroke. -/
theorem occursProperly_ring : OccursProperly ring ringManifest [] := by
  have hproper : ∀ name ∈ ["a", "b"], (⟨"g", name, "1"⟩ : Coordinate).IsProper := by
    intro name hname
    have hnames : ∀ part ∈ ["a", "b", "g", "1"],
        (part ≠ "" ∧ '/' ∉ part.toList) ∧ part ≠ "." ∧ part ≠ ".." := by decide +kernel
    have hpart : ∀ part ∈ ["a", "b", "g", "1"], Path.IsPart part := by
      intro part hmem
      obtain ⟨⟨hempty, hslash⟩, hhere, hup⟩ := hnames part hmem
      exact ⟨⟨hempty, hslash⟩, hhere, hup⟩
    have hgroup : Text.segments '.' "g" = ["g"] := by decide +kernel
    refine ⟨fun part hg => ?_, hpart name ?_, hpart "1" (by decide)⟩
    · rw [hgroup] at hg
      obtain rfl := List.mem_singleton.1 hg
      exact (hpart "g" (by decide)).toIsSegment
    · exact List.mem_append_left ["g", "1"] hname
  intro library version h
  cases h with
  | @top _ d version htop _ hversion =>
    have hnames : ringManifest.topLevel [] = [("g/b", .map [(.str "mvn/version", .str "1")])] := by
      with_unfolding_all rfl
    have hmem : (library, d) ∈ ringManifest.topLevel [] :=
      (Entries.get?_eq_some_iff_mem (Entries.nodup_keys_ofList _)).1 htop
    rw [hnames] at hmem
    obtain ⟨rfl, rfl⟩ := Prod.mk.inj (List.mem_singleton.1 hmem)
    have hone : partOf? [(.str "mvn/version", .str "1")] "mvn/version" = some (.str "1") := by
      with_unfolding_all rfl
    obtain rfl := Option.some.inj (hone.symm.trans hversion)
    exact ⟨⟨"g", "b", "1"⟩, hproper "b" (by decide), by decide, rfl⟩
  | dependency _ hds hd =>
    obtain ⟨hlibrary, hversion⟩ := eq_of_follows_ring hds hd
    exact ⟨⟨"g", "a", "1"⟩, hproper "a" (by decide), by rw [hlibrary]; decide, hversion.symm⟩

/-- The dependencies in the ring lead back to one of its libraries, and the resolution ends. -/
theorem resolution_ends_ring : (ring.IsAcyclic ∧ OccursProperly ring ringManifest []) ∧
    (∃ result, ∀ n, 4 < n → ring.Settles (within ring ringManifest [] n) result) ∧
    ∀ tops frontiers s, topSelections ring ringManifest (ringManifest.topLevel []) = .ok tops →
      Passes ring (ringManifest.topLevel []).keys (start tops) frontiers s →
        frontiers.length ≤ 5 ∧ (libraryNames (frontiers.flatten ++ s.next)).Nodup := by
  have hsize : ring.tree.files.length = 4 := rfl
  have hends := resolution_ends isAcyclic_ring occursProperly_ring
  rw [hsize] at hends
  obtain ⟨⟨result, -, hresult, -⟩, hpasses⟩ := hends
  refine ⟨⟨isAcyclic_ring, occursProperly_ring⟩, ⟨result, hresult⟩, ?_⟩
  intro tops frontiers s htops hs
  obtain ⟨hlength, hnodup, -⟩ := hpasses tops frontiers s htops hs
  exact ⟨hlength, hnodup⟩

end Resolution

end BuildFiles
