import BuildFiles.Proofs.Resolution.Workers

/-!
# Neither what is known nor the workers can be told from a resolution

A repository object is used again and again: what earlier loads read, it remembers (`Remembers`).
And the descriptions of a level are loaded by workers that take turns (`Resolution.Explores`). Where
no chain of parents comes back to itself, neither matters: every description and every resolution
comes to the same value or fault as with nothing known and with one load after the other
(`hidesCache_of_acyclic`), and the workers always come to an end.
-/

namespace BuildFiles

namespace Repository

/-- What earlier loads can have left known: single ones, and workers that took any number of steps,
whether all of their loads were over or not. -/
inductive Remembers (r : Repository) : PomCache → Prop
  | nothing : Remembers r []
  | loaded {known known' : PomCache} {c : Coordinate} {pom : Option Pom}
    (hbefore : Remembers r known) (hload : (r.pom? c).Yields known pom known') : Remembers r known'
  | worked {known : PomCache} {cs : List Coordinate} {n : Nat} {p : Pool}
    (hbefore : Remembers r known) (hsteps : Pool.Steps r n (.start known cs) p) :
    Remembers r p.known

theorem IsAcyclic.ends {r : Repository} (h : r.IsAcyclic) (c : Coordinate) : r.Ends c :=
  ends_of_acyclic fun x _ => h x

/-- What is remembered is true. -/
theorem Remembers.isTrue {r : Repository} (hends : ∀ c, r.Ends c) {known : PomCache}
    (h : r.Remembers known) : r.IsTrue known := by
  induction h with
  | nothing => exact r.isTrue_nil
  | @loaded known known' c pom _ hload ih =>
    obtain ⟨said, said', hrun⟩ := hload
    have htrue := (settles_pom? (hends c)).isTrue ih said
    rwa [hrun] at htrue
  | worked _ hsteps ih => exact ((Pool.isSound_start ih _).steps hends hsteps).known

end Repository

namespace Resolution

variable {r : Repository} {top : List String} {known : PomCache} {s : Progress}

/-- The workers of a level come to what there is to collect, with what is known then. -/
def Collects (r : Repository) (known : PomCache) (next : List Selection)
    (found : Except Fault (List (Selection × List Dependency))) (after : PomCache) : Prop :=
  ∃ n p, Pool.Steps r n (.start known ((work next).map Prod.snd)) p ∧
    Pool.collect (work next) p.loads = some found ∧ p.known = after

/-- Going through at most that many levels with workers, from what is known, comes to a result. -/
inductive Explores (r : Repository) (top : List String) :
    Nat → PomCache → Progress → Except Fault Progress → Prop
  /-- nothing new was taken in -/
  | nothing {fuel : Nat} {known : PomCache} {s : Progress} (hnext : s.next.isEmpty = true) :
    Explores r top fuel known s (.ok s)
  /-- there are more levels -/
  | endless {known : PomCache} {s : Progress} (hnext : ¬ s.next.isEmpty = true) :
    Explores r top 0 known s (.error (.resolution .endless))
  /-- a load fails -/
  | unloaded {fuel : Nat} {known after : PomCache} {s : Progress} {e : Fault}
    (hnext : ¬ s.next.isEmpty = true) (hfound : Collects r known s.next (.error e) after) :
    Explores r top (fuel + 1) known s (.error e)
  /-- a dependency cannot be taken in -/
  | refused {fuel : Nat} {known after : PomCache} {s : Progress}
    {found : List (Selection × List Dependency)} {e : Fault} (hnext : ¬ s.next.isEmpty = true)
    (hfound : Collects r known s.next (.ok found) after)
    (hmet : (found.foldlM (meetAll r top) { s with next := [] }).outcome.1 = .error e) :
    Explores r top (fuel + 1) known s (.error e)
  /-- the next level is gone through -/
  | onward {fuel : Nat} {known after : PomCache} {s s' : Progress}
    {found : List (Selection × List Dependency)} {result : Except Fault Progress}
    (hnext : ¬ s.next.isEmpty = true) (hfound : Collects r known s.next (.ok found) after)
    (hmet : (found.foldlM (meetAll r top) { s with next := [] }).outcome.1 = .ok s')
    (hrest : Explores r top fuel after s' result) :
    Explores r top (fuel + 1) known s result

/-- Resolving a manifest with workers, from what is known, comes to a result. -/
inductive Resolves (r : Repository) (m : Manifest) (aliases : List String) (fuel : Nat)
    (known : PomCache) : Except Fault (Progress × Basis) → Prop
  /-- a source path cannot be resolved -/
  | unsourced {e : Fault} (hsources : m.sourceEntries aliases = .error e) :
    Resolves r m aliases fuel known (.error e)
  /-- a library of the manifest cannot be taken in -/
  | refused {sources : List ClasspathEntry} {e : Fault}
    (hsources : m.sourceEntries aliases = .ok sources)
    (htops : topSelections r m (m.topLevel aliases) = .error e) :
    Resolves r m aliases fuel known (.error e)
  /-- the levels are gone through -/
  | explored {sources : List ClasspathEntry} {selections : List Selection}
    {result : Except Fault Progress} (hsources : m.sourceEntries aliases = .ok sources)
    (htops : topSelections r m (m.topLevel aliases) = .ok selections)
    (hlevels : Explores r (m.topLevel aliases).keys fuel known (start selections) result) :
    Resolves r m aliases fuel known (result.map fun s => (s, basisOf m aliases sources s))

/-! ## Levels -/

/-- What the workers of a level come to is told by the files. -/
theorem Collects.eq (hends : ∀ c, r.Ends c) (hknown : r.IsTrue known) {next : List Selection}
    {found : Except Fault (List (Selection × List Dependency))} {after : PomCache}
    (h : Collects r known next found after) : found = toldFound r next ∧ r.IsTrue after := by
  obtain ⟨n, p, hsteps, hcollect, rfl⟩ := h
  have hsound := (Pool.isSound_start hknown _).steps hends hsteps
  refine ⟨Pool.collect_eq ?_ hcollect, hsound.known⟩
  rw [hsound.results, List.map_map]
  rfl

/-- The workers of a level come to something. -/
theorem exists_collects (hends : ∀ c, r.Ends c) (hknown : r.IsTrue known)
    (next : List Selection) :
    ∃ after, Collects r known next (toldFound r next) after ∧ r.IsTrue after := by
  have hlength : (Pool.start known ((work next).map Prod.snd)).loads.length =
      (work next).length := by
    rw [Pool.start, List.length_map, List.length_map]
  obtain ⟨n, p, found, hsteps, hfound⟩ := Pool.exists_collect hends hlength
  have hcollects : Collects r known next found p.known := ⟨n, p, hsteps, hfound, rfl⟩
  obtain ⟨rfl, htrue⟩ := hcollects.eq hends hknown
  exact ⟨p.known, hcollects, htrue⟩

/-- What going through the levels with workers comes to is told by the files. The induction follows
the levels: whatever is known after one, it is true. -/
theorem Explores.eq (hends : ∀ c, r.Ends c) (hknown : r.IsTrue known) {fuel : Nat}
    {result : Except Fault Progress} (h : Explores r top fuel known s result) :
    result = toldLevels r top fuel s := by
  induction h with
  | @nothing fuel known s hnext =>
    cases fuel <;> rw [toldLevels, if_pos hnext]
  | endless hnext => rw [toldLevels, if_neg hnext]
  | unloaded hnext hfound =>
    rw [toldLevels, if_neg hnext, toldLevel, ← (hfound.eq hends hknown).1]
    rfl
  | refused hnext hfound hmet =>
    rw [toldLevels, if_neg hnext, toldLevel, ← (hfound.eq hends hknown).1, Except.bind_of_ok rfl,
      hmet]
    rfl
  | onward hnext hfound hmet _ ih =>
    obtain ⟨htold, htrue⟩ := hfound.eq hends hknown
    rw [toldLevels, if_neg hnext, toldLevel, ← htold, Except.bind_of_ok rfl, hmet,
      Except.bind_of_ok rfl]
    exact ih htrue

theorem exists_explores (hends : ∀ c, r.Ends c) (hknown : r.IsTrue known) (top : List String)
    (fuel : Nat) (s : Progress) : ∃ result, Explores r top fuel known s result := by
  by_cases hnext : s.next.isEmpty = true
  · exact ⟨_, .nothing hnext⟩
  · induction fuel generalizing known s with
    | zero => exact ⟨_, .endless hnext⟩
    | succ fuel ih =>
      obtain ⟨after, hfound, htrue⟩ := exists_collects hends hknown s.next
      rcases htold : toldFound r s.next with e | found
      · exact ⟨_, .unloaded hnext (htold ▸ hfound)⟩
      · rcases hmet : (found.foldlM (meetAll r top) { s with next := [] }).outcome.1 with e | s'
        · exact ⟨_, .refused hnext (htold ▸ hfound) hmet⟩
        · by_cases hnext' : s'.next.isEmpty = true
          · exact ⟨_, .onward hnext (htold ▸ hfound) hmet (.nothing hnext')⟩
          · obtain ⟨result, hrest⟩ := ih htrue s' hnext'
            exact ⟨result, .onward hnext (htold ▸ hfound) hmet hrest⟩

/-! ## Resolutions -/

theorem Resolves.eq (hends : ∀ c, r.Ends c) (hknown : r.IsTrue known) {m : Manifest}
    {aliases : List String} {fuel : Nat} {result : Except Fault (Progress × Basis)}
    (h : Resolves r m aliases fuel known result) : result = toldWithin r m aliases fuel := by
  cases h with
  | unsourced hsources =>
    rw [toldWithin, hsources]
    rfl
  | refused hsources htops =>
    rw [toldWithin, Except.bind_of_ok hsources, htops]
    rfl
  | explored hsources htops hlevels =>
    rw [toldWithin, Except.bind_of_ok hsources, Except.bind_of_ok htops, hlevels.eq hends hknown]
    cases toldLevels r (m.topLevel aliases).keys fuel _ <;> rfl

theorem exists_resolves (hends : ∀ c, r.Ends c) (hknown : r.IsTrue known) (m : Manifest)
    (aliases : List String) (fuel : Nat) : ∃ result, Resolves r m aliases fuel known result := by
  rcases hsources : m.sourceEntries aliases with e | sources
  · exact ⟨_, .unsourced hsources⟩
  · rcases htops : topSelections r m (m.topLevel aliases) with e | selections
    · exact ⟨_, .refused hsources htops⟩
    · obtain ⟨result, hlevels⟩ := exists_explores hends hknown (m.topLevel aliases).keys fuel
        (start selections)
      exact ⟨_, .explored hsources htops hlevels⟩

theorem settles_resolve (hends : ∀ c, r.Ends c) (m : Manifest) (aliases : List String) :
    r.Settles (resolve r m aliases)
      (toldWithin r m aliases ((m.topLevel aliases).length + r.tree.size) >>= fun p => .ok p.2) :=
  (settles_within hends m aliases _).bind fun _ _ => .pure _

end Resolution

/-- What a computation comes to from what is known. -/
def Resolving.resultFrom {α : Type} (x : Resolving α) (known : PomCache) : Except Fault α :=
  ((x.run.run known).run []).1.1

/-- What is known at first and how workers take turns cannot be told from any result. -/
structure Repository.HidesCache (r : Repository) (known : PomCache) : Prop where
  /-- a description is as with nothing known -/
  description : ∀ c, (r.pom? c).resultFrom known = (r.pom? c).resultFrom []
  /-- so is what each of several loads at once comes to -/
  loads : ∀ cs n p, Pool.Steps r n (.start known cs) p → List.Forall₂ (fun c load =>
    ∀ result, load = .ended result → result = (r.pom? c).resultFrom []) cs p.loads
  /-- the loads take no more than so many steps -/
  bounded : ∀ cs n p, Pool.Steps r n (.start known cs) p →
    n ≤ cs.length * (4 * (r.tree.files.length + 2))
  /-- when they can take no more steps, they are over -/
  finished : ∀ p, (∀ p', ¬ Pool.Step r p p') → ∀ load ∈ p.loads, load.IsOver
  /-- a resolution with workers comes to what one that loads one description after the other comes
  to with nothing known, within as many levels -/
  within : ∀ m aliases fuel result, Resolution.Resolves r m aliases fuel known result →
    result = (Resolution.within r m aliases fuel).resultFrom []
  /-- the basis is the same -/
  basis : ∀ m aliases result,
    Resolution.Resolves r m aliases ((m.topLevel aliases).length + r.tree.size) known result →
      result.map Prod.snd = (Resolution.resolve r m aliases).resultFrom []
  /-- a resolution with workers comes to something -/
  resolves : ∀ m aliases fuel, ∃ result, Resolution.Resolves r m aliases fuel known result

/-- Where no chain of parents comes back to itself, neither what earlier loads left known nor the
turns that workers take can be told from a result. -/
theorem Repository.hidesCache_of_acyclic {r : Repository} (h : r.IsAcyclic) {known : PomCache}
    (hknown : r.Remembers known) : r.HidesCache known := by
  have hends := h.ends
  have htrue := hknown.isTrue hends
  have hpom : ∀ c, (r.pom? c).resultFrom [] = r.told c := fun c =>
    (settles_pom? (hends c)).fst_run r.isTrue_nil []
  refine ⟨fun c => ?_, fun cs n p hsteps => ?_, fun cs n p hsteps => ?_, fun p hnone => ?_,
    fun m aliases fuel result hresult => ?_, fun m aliases result hresult => ?_,
    fun m aliases fuel => Resolution.exists_resolves hends htrue m aliases fuel⟩
  · rw [hpom]
    exact (settles_pom? (hends c)).fst_run htrue []
  · have hsound := (Pool.isSound_start htrue cs).steps hends hsteps
    have hall : List.Forall₂ (fun c load => r.told c = load.result r) cs p.loads := by
      have hsame : List.Forall₂ Eq (cs.map r.told) (p.loads.map (Load.result r)) :=
        hsound.results ▸ List.forall₂_refl _
      exact List.forall₂_map_left_iff.1 (List.forall₂_map_right_iff.1 hsame)
    refine hall.imp fun c load hload result hover => ?_
    rw [hpom, hload, hover]
    rfl
  · have hle := hsteps.le_effort hends
    have hstart := Pool.effort_start_le r known cs
    omega
  · intro load hload
    by_contra hover
    obtain ⟨p', hstep⟩ := Pool.exists_step (r := r) hload hover
    exact hnone p' hstep
  · rw [hresult.eq hends htrue]
    exact ((Resolution.settles_within hends m aliases fuel).fst_run r.isTrue_nil []).symm
  · rw [hresult.eq hends htrue]
    refine Eq.trans ?_ ((Resolution.settles_resolve hends m aliases).fst_run r.isTrue_nil []).symm
    cases Resolution.toldWithin r m aliases _ <;> rfl

/-- What is known after a library with a parent was loaded cannot be told from a result. -/
theorem Repository.hidesCache_family : ∃ known pom,
    (family.pom? ⟨"g", "a", "1"⟩).Yields [] (some pom) known ∧ family.HidesCache known := by
  obtain ⟨child, parent, hchild, hparent, ⟨hof, -⟩, hnone, -⟩ := exists_family
  have hends := isAcyclic_family.ends
  have htold : ∃ pom, family.told ⟨"g", "a", "1"⟩ = .ok (some pom) := by
    have hchild' := description?_eq_some.2 ⟨_, locate_family.1, hchild⟩
    have hparent' := description?_eq_some.2 ⟨_, locate_family.2, hparent⟩
    rw [told_of_parent (hends _) hchild' hof, told_of_alone (hends _) hparent' hnone]
    exact ⟨_, rfl⟩
  obtain ⟨pom, hpom⟩ := htold
  obtain ⟨known, said, hrun, -⟩ := settles_pom? (hends ⟨"g", "a", "1"⟩) [] family.isTrue_nil []
  rw [hpom] at hrun
  have hyields : (family.pom? ⟨"g", "a", "1"⟩).Yields [] (some pom) known := ⟨[], said, hrun⟩
  exact ⟨known, pom, hyields, hidesCache_of_acyclic isAcyclic_family (.loaded .nothing hyields)⟩

end BuildFiles
