import BuildFiles.Proofs.Resolution.Decision

/-!
# How resolution goes through its levels

A level goes through the libraries that the level before took in, and meets all dependencies of
each. `Underway` is what holds within a level, `Explored` what holds between two of them, and
`Explored.levels` says that when no level is left, everything that was taken in was gone through.
-/

namespace BuildFiles

namespace Resolution

/-- The visits to the dependencies of a library. -/
def visitsOf (found : Selection × List Dependency) : List Visit := found.2.map (Visit.mk found.1)

theorem mem_flatMap_visitsOf {found : List (Selection × List Dependency)} {v : Visit} :
    v ∈ found.flatMap visitsOf ↔ ∃ ds, (v.parent, ds) ∈ found ∧ v.dependency ∈ ds := by
  rw [List.mem_flatMap]
  constructor
  · rintro ⟨⟨parent, ds⟩, hf, hv⟩
    obtain ⟨d, hd, rfl⟩ := List.mem_map.1 hv
    exact ⟨ds, hf, hd⟩
  · rintro ⟨ds, hf, hd⟩
    exact ⟨(v.parent, ds), hf, List.mem_map.2 ⟨v.dependency, hd, rfl⟩⟩

/-! ## Within a level -/

/-- What holds while a level is gone through that is entered with the libraries of `base`, and whose
dependencies are reached by way of `depth` libraries. -/
structure Underway (top : List String) (tops base : List Selection) (depth : Nat)
    (visits : List Visit) (s : Progress) : Prop where
  named : ∀ l, l ∈ top ↔ l ∈ libraryNames tops
  selected : s.selected = byLibrary (base ++ s.next)
  decided : Decided tops visits (base ++ s.next) s.trace
  next : ∀ t ∈ s.next, t.path.length = depth
  ordered : (s.trace.map (·.path.length)).Pairwise (· ≤ ·)
  bounded : ∀ x ∈ s.trace, x.path.length ≤ depth

namespace Underway

variable {r : Repository} {top : List String} {tops base : List Selection} {depth : Nat}
  {visits : List Visit} {s s' : Progress}

/-- Meeting one more dependency of a library at this depth keeps the level underway: what it records
and takes in lies one library beyond the parent. -/
theorem meet (h : Underway top tops base depth visits s) {parent : Selection} {d : Dependency}
    (hparent : parent ∈ base) (hdepth : parent.way.length = depth)
    (hrun : (Resolution.meet r top parent s d).Yields s') :
    Underway top tops base depth (visits ++ [⟨parent, d⟩]) s' := by
  obtain ⟨added, x, hstep, hpath, hadded⟩ := h.decided.meets (v := ⟨parent, d⟩) h.selected
    (List.mem_append_left _ hparent) ((meets_of_yields hrun).congr h.named)
  -- both what is recorded and what is taken in lie one library beyond the parent
  have hx : x.path.length = depth := by
    rw [hpath]
    exact hdepth
  refine ⟨h.named, ?_, ?_, ?_, ?_, ?_⟩
  · rw [hstep.selected, hstep.next, List.append_assoc]
  · rw [hstep.next, ← List.append_assoc]
    exact hstep.decided
  · intro t ht
    rw [hstep.next] at ht
    rcases List.mem_append.1 ht with ht | ht
    · exact h.next t ht
    · rw [hadded t ht]
      exact hdepth
  · rw [hstep.trace, List.map_append, List.pairwise_append]
    refine ⟨h.ordered, List.pairwise_singleton .., ?_⟩
    intro a ha b hb
    obtain ⟨y, hy, rfl⟩ := List.mem_map.1 ha
    rw [List.map_singleton, List.mem_singleton] at hb
    rw [hb, hx]
    exact h.bounded y hy
  · intro y hy
    rw [hstep.trace] at hy
    rcases List.mem_append.1 hy with hy | hy
    · exact h.bounded y hy
    · rw [List.mem_singleton.1 hy]
      exact Nat.le_of_eq hx

theorem meetAll (h : Underway top tops base depth visits s) {found : Selection × List Dependency}
    (hparent : found.1 ∈ base) (hdepth : found.1.way.length = depth)
    (hrun : (Resolution.meetAll r top s found).Yields s') :
    Underway top tops base depth (visits ++ visitsOf found) s' := by
  refine hrun.foldlM []
    (P := fun ds s => Underway top tops base depth (visits ++ ds.map (Visit.mk found.1)) s) ?_ ?_
  · intro ds d s s' _ hs hd
    rw [List.map_append, ← List.append_assoc]
    exact hs.meet hparent hdepth hd
  · rw [List.map_nil, List.append_nil]
    exact h

/-- Going through all that was found. -/
theorem all (h : Underway top tops base depth visits s) {found : List (Selection × List Dependency)}
    (hfound : ∀ f ∈ found, f.1 ∈ base ∧ f.1.way.length = depth)
    (hrun : (found.foldlM (Resolution.meetAll r top) s).Yields s') :
    Underway top tops base depth (visits ++ found.flatMap visitsOf) s' := by
  refine hrun.foldlM []
    (P := fun fs s => Underway top tops base depth (visits ++ fs.flatMap visitsOf) s) ?_ ?_
  · intro fs f s s' hf hs hrun
    rw [List.flatMap_append, List.flatMap_singleton, ← List.append_assoc]
    exact hs.meetAll (hfound f hf).1 (hfound f hf).2 hrun
  · rw [List.flatMap_nil, List.append_nil]
    exact h

/-- The next level is entered with what this one took in. -/
theorem enter (h : Underway top tops base depth visits s) :
    Underway top tops (base ++ s.next) (depth + 1) visits { s with next := [] } where
  named := h.named
  selected := by
    rw [List.append_nil]
    exact h.selected
  decided := by
    rw [List.append_nil]
    exact h.decided
  next := by simp
  ordered := h.ordered
  bounded := fun x hx => Nat.le_succ_of_le (h.bounded x hx)

end Underway

/-! ## From level to level -/

/-- The libraries of a level with their dependencies, none of those without a version. -/
structure Found (r : Repository) (known : PomCache) (libraries : List Selection)
    (found : List (Selection × List Dependency)) : Prop where
  parents : found.map Prod.fst = libraries.filter (·.version.isSome)
  follows : ∀ f ∈ found, f.1.DependsOn r known f.2

namespace Found

variable {r : Repository} {known : PomCache} {libraries : List Selection}
  {found : List (Selection × List Dependency)}

theorem append (h : Found r known libraries found) {libraries' : List Selection}
    {found' : List (Selection × List Dependency)} (h' : Found r known libraries' found') :
    Found r known (libraries ++ libraries') (found ++ found') where
  parents := by rw [List.map_append, List.filter_append, h.parents, h'.parents]
  follows := by
    intro f hf
    rcases List.mem_append.1 hf with hf | hf
    · exact h.follows f hf
    · exact h'.follows f hf

theorem mem (h : Found r known libraries found) {f : Selection × List Dependency}
    (hf : f ∈ found) : f.1 ∈ libraries := by
  have hmem : f.1 ∈ found.map Prod.fst := List.mem_map_of_mem hf
  rw [h.parents] at hmem
  exact (List.mem_filter.1 hmem).1

end Found

/-- What is looked up for a library. -/
theorem dependsOn_of_yields {r : Repository} {known before after : PomCache} {s : Selection}
    {found : Option (Selection × List Dependency)} (hbefore : r.Extends known before)
    (h : (dependenciesOf r s).Yields before found after) :
    r.Extends known after ∧ Found r known [s] found.toList := by
  rw [dependenciesOf] at h
  split at h
  · next hversion =>
    obtain ⟨rfl, rfl⟩ := h.pure
    exact ⟨hbefore, by simp [hversion], by simp⟩
  · next version hversion =>
    obtain ⟨ds, mid, hds, hpure⟩ := h.bind
    obtain ⟨rfl, rfl⟩ := hpure.pure
    obtain ⟨hfollows, hextends⟩ := Repository.follows_of_dependenciesOf hbefore hds
    refine ⟨hextends, by simp [hversion], ?_⟩
    intro f hf
    rw [List.mem_singleton.1 hf]
    exact ⟨version, hversion, hfollows⟩

theorem found_of_forall₂ {r : Repository} {known : PomCache} {libraries : List Selection}
    {found : List (Option (Selection × List Dependency))}
    (h : List.Forall₂ (fun s f => Found r known [s] f.toList) libraries found) :
    Found r known libraries (found.filterMap id) := by
  induction h with
  | nil => exact ⟨rfl, by simp⟩
  | @cons s o libraries os hs _ ih =>
    have happend := hs.append ih
    -- a library without a version has no dependencies, and nothing is found for it
    cases o with
    | none => exact happend
    | some f => exact happend

/-- What holds between two levels, after the dependencies `found` of the libraries `processed` were
met. -/
structure Explored (r : Repository) (known : PomCache) (top : List String)
    (tops processed : List Selection) (depth : Nat) (found : List (Selection × List Dependency))
    (s : Progress) : Prop where
  underway : Underway top tops processed depth (found.flatMap visitsOf) s
  all : Found r known processed found

namespace Explored

variable {r : Repository} {known before after : PomCache} {top : List String}
  {tops processed : List Selection} {depth : Nat} {found : List (Selection × List Dependency)}
  {s s' : Progress}

/-- Before the first level. -/
theorem start (hunique : (libraryNames tops).Nodup) (hnamed : ∀ l, l ∈ top ↔ l ∈ libraryNames tops)
    (hpath : ∀ t ∈ tops, t.path = []) :
    Explored r known top tops [] 0 [] (Resolution.start tops) where
  underway := by
    refine ⟨hnamed, rfl, .start hunique, fun t ht => by rw [hpath t ht]; rfl, ?_, ?_⟩
    · rw [Resolution.start, List.map_map]
      exact List.pairwise_map.2 (List.pairwise_of_forall fun _ _ => Nat.le_refl 0)
    · intro x hx
      obtain ⟨t, -, rfl⟩ := List.mem_map.1 hx
      exact Nat.le_refl 0
  all := ⟨rfl, by simp⟩

theorem level (h : Explored r known top tops processed depth found s)
    (hbefore : r.Extends known before)
    (hrun : (Resolution.level r top s).Yields before s' after) :
    r.Extends known after ∧ ∃ more,
      Explored r known top tops (processed ++ s.next) (depth + 1) (found ++ more) s' := by
  -- the dependencies of the whole level are looked up before any of them is met
  obtain ⟨options, mid, hfound, hlift⟩ := hrun.bind
  obtain ⟨hmid, hoptions⟩ := hfound.aside.mapM (I := r.Extends known)
    (R := fun s o => Found r known [s] o.toList)
    (fun _ _ _ _ hextends ho => dependsOn_of_yields hextends ho) hbefore
  obtain ⟨hmeet, rfl⟩ := hlift.lift
  have hmore := found_of_forall₂ hoptions
  refine ⟨hmid, options.filterMap id, ?_, h.all.append hmore⟩
  rw [List.flatMap_append]
  refine h.underway.enter.all (fun f hf => ⟨List.mem_append_right _ (hmore.mem hf), ?_⟩) hmeet
  rw [Selection.way, List.length_append, h.underway.next f.1 (hmore.mem hf)]
  rfl

/-- A resolution that ends has gone through all that it took in. The induction is on the number of
levels that are left. -/
theorem levels {fuel : Nat} (h : Explored r known top tops processed depth found s)
    (hbefore : r.Extends known before)
    (hrun : (Resolution.levels r top fuel s).Yields before s' after) :
    ∃ processed depth found, Explored r known top tops processed depth found s' ∧
      s'.next = [] := by
  induction fuel generalizing s processed depth found before with
  | zero =>
    rw [Resolution.levels] at hrun
    split at hrun
    · next hnext =>
      obtain ⟨rfl, rfl⟩ := hrun.pure
      exact ⟨_, _, _, h, List.isEmpty_iff.1 hnext⟩
    · exact hrun.throw.elim
  | succ fuel ih =>
    rw [Resolution.levels] at hrun
    split at hrun
    · next hnext =>
      obtain ⟨rfl, rfl⟩ := hrun.pure
      exact ⟨_, _, _, h, List.isEmpty_iff.1 hnext⟩
    · obtain ⟨mid, known', hlevel, hrest⟩ := hrun.bind
      obtain ⟨hknown', more, hmore⟩ := h.level hbefore hlevel
      exact ih hmore hknown' hrest

end Explored

end Resolution

end BuildFiles
