import BuildFiles.Proofs.Resolution.Completion
import BuildFiles.Proofs.Sources.Frame

/-!
# Resolving again

The files that resolution reads are no build files, so a tree that gains build files is still the
same repository (`Repository.Gains`). What a resolution comes to, it comes to again in such a tree,
if there it may go through as many levels as there are libraries: `returns_within`.
-/

namespace BuildFiles

/-! ## Files of a repository -/

/-- The last part of a text ends as the text does. -/
theorem getLast?_splitOn {sep : Char} {ending : List Char} (h : sep ∉ ending) (cs : List Char) :
    ∃ x, ((cs ++ ending).splitOn sep).getLast? = some (x ++ ending) := by
  induction cs with
  | nil => exact ⟨[], by rw [List.nil_append, List.splitOn_eq_singleton h]; rfl⟩
  | cons c cs ih =>
    obtain ⟨x, hx⟩ := ih
    rw [List.cons_append, List.splitOn_cons_eq_if_modifyHead]
    split
    · exact ⟨x, by rw [List.getLast?_cons, hx]; rfl⟩
    · rcases hparts : (cs ++ ending).splitOn sep with _ | ⟨part, parts⟩
      · exact absurd hparts (List.splitOn_ne_nil _ _)
      · rw [hparts] at hx
        rcases parts with _ | ⟨part', parts⟩
        · obtain rfl := Option.some.inj hx
          exact ⟨c :: x, rfl⟩
        · exact ⟨x, hx⟩

/-- The last name of a text as a path ends as the text does. -/
theorem Path.exists_getLast?_parse {ending : String} (hslash : '/' ∉ ending.toList)
    (hend : 1 < ending.length) (s : String) :
    ∃ x, (Path.parse (s ++ ending)).names.getLast? = some (x ++ ending) := by
  obtain ⟨x, hx⟩ := getLast?_splitOn hslash s.toList
  obtain ⟨front, hsplit⟩ := List.getLast?_eq_some_iff.1 hx
  have hlast : String.ofList (x ++ ending.toList) = String.ofList x ++ ending := by
    rw [String.ofList_append, String.ofList_toList]
  have hlong : 1 < (String.ofList x ++ ending).length := by
    rw [String.length_append]
    omega
  have hkept : (String.ofList x ++ ending != "" && String.ofList x ++ ending != ".") = true := by
    rw [Bool.and_eq_true, bne_iff_ne, bne_iff_ne]
    constructor <;> intro heq <;> rw [heq] at hlong <;> revert hlong <;> decide
  refine ⟨String.ofList x, ?_⟩
  rw [Path.parse, Text.segments, String.toList_append, hsplit, List.map_append,
    List.filter_append, List.map_singleton, hlast,
    List.filter_cons_of_pos (p := fun n => n != "" && n != ".") hkept]
  simp

/-- A file of a library in a repository is no build file. -/
theorem Coordinate.exists_name_file (c : Coordinate) (repository : Path) {ending : String}
    (hslash : '/' ∉ ending.toList) (hend : 1 < ending.length) :
    ∃ x, (c.file repository ending).name = x ++ ending := by
  obtain ⟨x, hx⟩ := Path.exists_getLast?_parse hslash hend (c.artifact ++ "-" ++ c.version)
  refine ⟨x, ?_⟩
  have hjoin : ∀ p q : Path, q.names.getLast? = some (x ++ ending) →
      (p.join q).name = x ++ ending := by
    intro p q hq
    rw [Path.join, Path.name]
    split
    · rw [List.getLast?_append, hq]
      rfl
    · rw [hq]
      rfl
  exact hjoin _ _ hx

theorem Coordinate.spares_file (c : Coordinate) (repository : Path) {ending : String}
    (hslash : '/' ∉ ending.toList) (hend : 1 < ending.length)
    (hother : ∀ n ∈ ["", "..", BuildFile.fileName], Text.endsWith n ending = false) (t : Tree) :
    t.Spares (c.file repository ending) := by
  obtain ⟨x, hname⟩ := c.exists_name_file repository hslash hend
  refine Tree.spares_of_name ?_ t
  rintro n hn rfl
  have hends : Text.endsWith (x ++ ending) ending = true := by
    rw [Text.endsWith, String.toList_append, List.isSuffixOf_iff_suffix]
    exact List.suffix_append _ _
  rw [hname] at hn
  rw [hother _ hn] at hends
  cases hends

theorem Coordinate.spares_archive (c : Coordinate) (repository : Path) (t : Tree) :
    t.Spares (c.archive repository) :=
  c.spares_file repository (by decide) (by decide) (by decide) t

theorem Coordinate.spares_pom (c : Coordinate) (repository : Path) (t : Tree) :
    t.Spares (c.pom repository) :=
  c.spares_file repository (by decide) (by decide) (by decide) t

/-! ## The repository in a tree that gains build files -/

theorem Pom.steady_followed (p : Pom) (c : Coordinate) : (p.followed c).IsSteady := by
  refine (Logged.IsSteady.mapM (fun m => ?_) _).bind fun _ => .pure _
  rw [Pom.follow]
  split
  · exact (Logged.IsSteady.of _).bind fun _ => .pure _
  · exact (Logged.IsSteady.say _).bind fun _ => .pure _

/-- The second repository is the first one, in a tree to which build files were written. -/
structure Repository.Gains (r r' : Repository) : Prop where
  path : r.path = r'.path
  tree : r.tree.GainsBuildFiles r'.tree

namespace Repository.Gains

variable {r r' : Repository}

theorem archive_eq (h : r.Gains r') (library version : String) :
    r.archive library version = r'.archive library version := by
  rw [Repository.archive, Repository.archive, ← h.path,
    h.tree.toSameSources.has_eq (Coordinate.spares_archive _ _ _)]

theorem description? (h : r.Gains r') {c : Coordinate} {root : Option Xml.Element}
    (hroot : r.description? c = .ok root) : r'.description? c = .ok root := by
  have hpom := c.spares_pom r.path r.tree
  rw [Repository.description?, ← h.path, ← h.tree.toSameSources.has_eq hpom]
  obtain ⟨there, hthere, hroot⟩ := Except.bind_eq_ok hroot
  rw [Except.bind_of_ok hthere]
  cases there with
  | false => exact hroot
  | true =>
    obtain ⟨text, htext, hroot⟩ := Except.bind_eq_ok hroot
    rw [if_pos rfl, Except.bind_of_ok (h.tree.toSameSources.readText_eq_ok hpom htext)]
    exact hroot

theorem readPom (h : r.Gains r') {f f' : Coordinate → Resolving (Option Pom)}
    (hf : ∀ c, Resolving.Repeats (f c) (f' c)) (c : Coordinate) :
    Resolving.Repeats (r.readPom f c) (r'.readPom f' c) := by
  refine (Resolving.Repeats.lift fun root hroot => .of (h.description? hroot.of)).bind
    fun root => ?_
  cases root with
  | none => exact .pure none
  | some root =>
    cases hparent : Pom.parent? root with
    | none =>
      simp only [hparent]
      exact .pure _
    | some parent =>
      simp only [hparent]
      exact (hf parent).bind fun _ => .pure _

/-- The induction is on the length that a chain of parents may have in the first tree. -/
theorem pomWithin (h : r.Gains r') {n n' : Nat} (hn : n ≤ n') (c : Coordinate) :
    Resolving.Repeats (r.pomWithin n c) (r'.pomWithin n' c) := by
  induction n generalizing n' c with
  | zero => exact .throw _ _
  | succ n ih =>
    obtain ⟨n', rfl⟩ : ∃ k, n' = k + 1 := ⟨n' - 1, by omega⟩
    rw [Repository.pomWithin, Repository.pomWithin]
    refine Resolving.Repeats.get.bind fun known => ?_
    split
    · exact .pure _
    · exact (h.readPom (ih (by omega)) c).bind fun _ =>
        (Resolving.Repeats.modify _).bind fun _ => .pure _

theorem dependenciesOf (h : r.Gains r') (c : Coordinate) :
    Resolving.Repeats (r.dependenciesOf c) (r'.dependenciesOf c) := by
  refine (h.pomWithin (Nat.succ_le_succ h.tree.length) c).bind fun pom => ?_
  cases pom with
  | some pom => exact .lift fun ds hds => hds.returns (pom.steady_followed c)
  | none =>
    exact (Resolving.Repeats.lift fun _ h => h.returns (.say _)).bind fun _ => .pure []

end Repository.Gains

/-! ## Resolution -/

namespace Resolution

variable {r r' : Repository}

/-- A library of the manifest is selected as before in a tree that gained something, since its
archive is still there. -/
theorem topSelection_eq_ok (h : r.Gains r') {m : Manifest} {library : String} {d : Datum}
    {s : Selection} (hs : topSelection r m library d = .ok s) :
    topSelection r' m library d = .ok s := by
  rw [topSelection] at hs ⊢
  obtain ⟨exclusions, hexclusions, hs⟩ := Except.bind_eq_ok hs
  rw [Except.bind_of_ok hexclusions]
  split at hs
  · obtain ⟨root, hroot, hs⟩ := Except.bind_eq_ok hs
    obtain ⟨archive, harchive, hs⟩ := Except.bind_eq_ok hs
    obtain ⟨there, hthere, hs⟩ := Except.bind_eq_ok hs
    split at hs
    · next hthere' =>
      -- an archive that is there stays there
      have hstays : (r'.tree.has archive).mapError Fault.file = .ok true := by
        rw [h.tree.has (Except.ok_of_mapError (hthere' ▸ hthere))]
        rfl
      rw [Except.bind_of_ok hroot, Except.bind_of_ok harchive, Except.bind_of_ok hstays]
      exact hs
    · cases hs
  · cases hs
  · obtain ⟨version, hversion, hs⟩ := Except.bind_eq_ok hs
    rw [Except.bind_of_ok hversion, ← h.archive_eq]
    exact hs

theorem meet_eq (h : r.Gains r') (top : List String) :
    meet r top = meet r' top := by
  funext parent s d
  rw [meet, meet, h.archive_eq]

theorem steady_meet (r : Repository) (top : List String) (parent : Selection) (s : Progress)
    (d : Dependency) : (meet r top parent s d).IsSteady := by
  rw [meet]
  split
  · exact .pure _
  · split
    · exact .pure _
    · split
      · split
        · exact .pure _
        · exact (Logged.IsSteady.say _).bind fun _ => .pure _
      · exact (Logged.IsSteady.of _).bind fun _ => .pure _

theorem level_repeats (h : r.Gains r') (top : List String) (s : Progress) :
    Resolving.Repeats (level r top s) (level r' top s) := by
  have hdependencies : ∀ t, Resolving.Repeats (dependenciesOf r t) (dependenciesOf r' t) := by
    intro t
    rw [dependenciesOf, dependenciesOf]
    split
    · exact .pure _
    · exact (h.dependenciesOf _).bind fun _ => .pure _
  refine (Resolving.Repeats.mapM hdependencies s.next).aside.bind fun found => ?_
  have hmeetAll : meetAll r top = meetAll r' top := by
    funext s found
    rw [meetAll, meetAll, meet_eq h]
  rw [hmeetAll]
  have hsteady : ∀ s found, (meetAll r' top s found).IsSteady := fun s found =>
    Logged.IsSteady.foldlM (steady_meet r' top found.1) found.2 s
  exact .lift fun _ hs => hs.returns (Logged.IsSteady.foldlM hsteady _ _)

theorem levels_of_next (r : Repository) (top : List String) (fuel : Nat) {s : Progress}
    (h : s.next.isEmpty = true) : levels r top fuel s = pure s := by
  cases fuel with
  | zero => rw [levels, if_pos h]
  | succ fuel => rw [levels, if_pos h]

section Levels

variable {known known' before : PomCache} {top : List String} {tops processed : List Selection}
  {depth : Nat} {found : List (Selection × List Dependency)} {s s' : Progress} {fuel : Nat}

theorem Explored.length_selected (h : Explored r known top tops processed depth found s) :
    s.selected.length = processed.length + s.next.length := by
  rw [h.underway.selected, byLibrary, List.length_map, List.length_append]

/-- What is to be gone through yet stays taken in, so there are no fewer libraries in the end than
at any level before it. -/
theorem Explored.length_le_of_levels (h : Explored r known top tops processed depth found s)
    (hbefore : r.Extends known before)
    (hrun : (Resolution.levels r top fuel s).Yields before s' known') :
    processed.length + s.next.length ≤ s'.selected.length := by
  induction fuel generalizing s processed depth found before with
  | zero =>
    rw [Resolution.levels] at hrun
    split at hrun
    · obtain ⟨rfl, -⟩ := hrun.pure
      exact Nat.le_of_eq h.length_selected.symm
    · exact hrun.throw.elim
  | succ fuel ih =>
    rw [Resolution.levels] at hrun
    split at hrun
    · obtain ⟨rfl, -⟩ := hrun.pure
      exact Nat.le_of_eq h.length_selected.symm
    · obtain ⟨mid, known'', hlevel, hrest⟩ := hrun.bind
      obtain ⟨hextends, more, hmore⟩ := h.level hbefore hlevel
      have hlength := ih hmore hextends hrest
      rw [List.length_append] at hlength
      omega

/-- Going through the levels comes to the same where as many levels are allowed as there are
libraries to go through. The induction is on the levels that the first repository allows. -/
theorem Explored.returns_levels (h : Explored r known top tops processed depth found s)
    (hgains : r.Gains r') {fuel' : Nat} (hbefore : r.Extends known before)
    (hrun : (Resolution.levels r top fuel s).Yields before s' known')
    (hroom : s'.selected.length ≤ fuel' + processed.length) :
    (Resolution.levels r' top fuel' s).Returns before s' known' := by
  induction fuel generalizing s processed depth found before fuel' with
  | zero =>
    rw [Resolution.levels] at hrun
    split at hrun
    · next hnext =>
      rw [levels_of_next r' top fuel' hnext]
      exact Resolving.Repeats.pure s _ _ _ hrun
    · exact hrun.throw.elim
  | succ fuel ih =>
    have hlength := h.length_le_of_levels hbefore hrun
    rw [Resolution.levels] at hrun
    split at hrun
    · next hnext =>
      rw [levels_of_next r' top fuel' hnext]
      exact Resolving.Repeats.pure s _ _ _ hrun
    · next hnext =>
      have hpos : 0 < s.next.length := by
        rwa [List.isEmpty_iff, ← List.length_eq_zero_iff, ← ne_eq, ← Nat.pos_iff_ne_zero] at hnext
      obtain ⟨fuel', rfl⟩ : ∃ k, fuel' = k + 1 := ⟨fuel' - 1, by omega⟩
      obtain ⟨mid, known'', hlevel, hrest⟩ := hrun.bind
      obtain ⟨hextends, more, hmore⟩ := h.level hbefore hlevel
      rw [Resolution.levels, if_neg hnext]
      refine (level_repeats hgains top s _ _ _ hlevel).bind (ih hmore hextends hrest ?_)
      rw [List.length_append]
      omega

end Levels

/-- A resolution comes to the same from a tree that gained build files, if that allows as many
levels as there are libraries. -/
theorem returns_within (hgains : r.Gains r') {m : Manifest} {aliases : List String}
    {known known' : PomCache} {fuel fuel' : Nat} {s : Progress} {b : Basis}
    (h : (within r m aliases fuel).Yields known (s, b) known')
    (hroom : b.libraries.length ≤ fuel') :
    (within r' m aliases fuel').Returns known (s, b) known' := by
  obtain ⟨tops, taken, found, hcomplete⟩ := complete_of_within h
  have hlength : s.selected.length = b.libraries.length := by
    rw [hcomplete.selected, hcomplete.libraries, byLibrary, List.length_map, List.length_map,
      List.length_mergeSort]
  obtain ⟨sources, hsources, h⟩ := h.lift_bind
  obtain ⟨_, -, h⟩ := h.lift_bind
  obtain ⟨tops, htops, h⟩ := h.lift_bind
  obtain ⟨s', mid, hlevels, h⟩ := h.bind
  obtain ⟨_, -, hpure⟩ := h.lift_bind
  obtain ⟨hpair, rfl⟩ := hpure.pure
  obtain ⟨rfl, rfl⟩ := Prod.mk.inj hpair
  have htops' : topSelections r' m (m.topLevel aliases) = .ok tops :=
    Except.mapM_of_forall₂ ((forall₂_of_topSelections htops.of).imp fun _ _ hs =>
      topSelection_eq_ok hgains hs)
  have hagain :
      (levels r' (m.topLevel aliases).keys fuel' (start tops)).Returns known s known' := by
    refine (explored_of_topSelections htops.of known).returns_levels hgains (.refl r known)
      hlevels ?_
    rwa [hlength]
  refine (Resolving.Returns.lift (.of hsources.of) _).bind ?_
  refine (Resolving.Returns.lift (.sayAll _) _).bind ?_
  refine (Resolving.Returns.lift (.of htops') _).bind (hagain.bind ?_)
  exact (Resolving.Returns.lift (.say _) _).bind (.pure _ _)

end Resolution

end BuildFiles
