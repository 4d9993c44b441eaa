import BuildFiles.Proofs.Resolution.Ancestry
import BuildFiles.Proofs.Resolution.Repetition

/-!
# What is known of descriptions does not matter

A repository keeps the descriptions that it has read. What is kept is true (`IsTrue`): it is what
the files tell. So it does not matter what is kept when something is read: from all that is true the
computation comes to the same result, a value or a fault, and it leaves only what is true
(`Settles`). That holds of the description of a library (`settles_pom?`) and of its dependencies.
-/

namespace BuildFiles

variable {α β : Type}

/-- The result of a computation that does not depend on what was said before is always the same. -/
theorem Logged.IsSteady.fst_run {x : Logged α} (h : x.IsSteady) (said : List Record) :
    (x.run.run said).1 = x.outcome.1 := by
  obtain ⟨result, hresult⟩ := h
  rw [Logged.outcome, hresult, hresult]

namespace Repository

variable {r : Repository} {c p : Coordinate}

/-- What is known of descriptions is what the files tell. -/
def IsTrue (r : Repository) (known : PomCache) : Prop :=
  ∀ c pom, known.get? c = some pom → r.told c = .ok pom

/-- Nothing that is remembered is wrong before anything is. -/
theorem isTrue_nil (r : Repository) : r.IsTrue [] := fun _ _ h => nomatch h

/-- A description that is told can be remembered. -/
theorem IsTrue.insert {known : PomCache} (h : r.IsTrue known) {pom : Option Pom}
    (hpom : r.told c = .ok pom) : r.IsTrue (known.insert c pom) := by
  intro c' pom' hget
  rw [Entries.get?_insert] at hget
  split at hget
  · next hsame =>
    obtain rfl := eq_of_beq hsame
    rw [hpom, Option.some.inj hget]
  · exact h c' pom' hget

/-- Whatever true descriptions are known and whatever was said, the computation comes to the result,
and what is known then is true. -/
def Settles (r : Repository) (x : Resolving α) (result : Except Fault α) : Prop :=
  ∀ known, r.IsTrue known → ∀ said, ∃ known' said',
    (x.run.run known).run said = ((result, known'), said') ∧ r.IsTrue known'

namespace Settles

theorem pure (a : α) : r.Settles (pure a) (.ok a) :=
  fun known hknown said => ⟨known, said, rfl, hknown⟩

theorem throw (e : Fault) : r.Settles (throw e : Resolving α) (.error e) :=
  fun known hknown said => ⟨known, said, rfl, hknown⟩

/-- A steady computation that reads no description settles as it comes out. -/
theorem lift {x : Logged α} (hx : x.IsSteady) : r.Settles (Resolving.lift x) x.outcome.1 := by
  intro known hknown said
  have hrun : ((Resolving.lift x).run.run known).run said =
      (((x.run.run said).1, known), (x.run.run said).2) := rfl
  rw [hx.fst_run] at hrun
  exact ⟨known, _, hrun, hknown⟩

/-- Two steps settle as the second does after the first. -/
theorem bind {x : Resolving α} {f : α → Resolving β} {result : Except Fault α}
    {results : α → Except Fault β} (hx : r.Settles x result)
    (hf : ∀ a, result = .ok a → r.Settles (f a) (results a)) :
    r.Settles (x >>= f) (result >>= results) := by
  intro known hknown said
  obtain ⟨mid, said', hrun, hmid⟩ := hx known hknown said
  rw [ExceptT.run_bind, StateT.run_bind, StateT.run_bind, hrun]
  cases result with
  | error e => exact ⟨mid, said', rfl, hmid⟩
  | ok a => exact hf a rfl mid hmid said'

/-- What is only said does not matter. -/
theorem of_returns_bind {x : Logged α} {a : α} {f : α → Resolving β} {result : Except Fault β}
    (hx : x.Returns a) (hf : r.Settles (f a) result) :
    r.Settles (Resolving.lift x >>= f) result := by
  obtain ⟨said', hrun⟩ := hx []
  have houtcome : x.outcome.1 = .ok a := congrArg Prod.fst hrun
  have hlift : r.Settles (Resolving.lift x) (.ok a) := houtcome ▸ lift hx.isSteady
  have hrest : ∀ b, (.ok a : Except Fault α) = .ok b → r.Settles (f b) result := fun b hb =>
    Except.ok.inj hb ▸ hf
  exact hlift.bind hrest

/-- Steps for the items of a list settle one by one. -/
theorem mapM {f : α → Resolving β} {results : α → Except Fault β}
    (hf : ∀ a, r.Settles (f a) (results a)) (l : List α) :
    r.Settles (l.mapM f) (l.mapM results) := by
  induction l with
  | nil => exact .pure []
  | cons a l ih =>
    rw [List.mapM_cons, List.mapM_cons]
    exact (hf a).bind fun b _ => ih.bind fun bs _ => .pure (b :: bs)

/-- Reading aside changes nothing about what is settled. -/
theorem aside {x : Resolving α} {result : Except Fault α} (h : r.Settles x result) :
    r.Settles (Resolving.aside x) result := by
  intro known hknown said
  obtain ⟨known', said', hrun, hknown'⟩ := h known hknown []
  have haside : ((Resolving.aside x).run.run known).run said =
      (((x.run.run known).run []).1,
        said ++ ((x.run.run known).run []).2.map fun r => { r with aside := true }) := rfl
  rw [hrun] at haside
  exact ⟨known', _, haside, hknown'⟩

/-- A computation comes to the same from all that is true. -/
theorem fst_run {x : Resolving α} {result : Except Fault α} (h : r.Settles x result)
    {known : PomCache} (hknown : r.IsTrue known) (said : List Record) :
    ((x.run.run known).run said).1.1 = result := by
  obtain ⟨known', said', hrun, -⟩ := h known hknown said
  rw [hrun]

/-- A computation comes to one result. -/
theorem unique {x : Resolving α} {result result' : Except Fault α} (h : r.Settles x result)
    (h' : r.Settles x result') : result = result' :=
  (h.fst_run r.isTrue_nil []).symm.trans (h'.fst_run r.isTrue_nil [])

/-- What settles leaves only right things remembered. -/
theorem isTrue {x : Resolving α} {result : Except Fault α} (h : r.Settles x result)
    {known : PomCache} (hknown : r.IsTrue known) (said : List Record) :
    r.IsTrue ((x.run.run known).run said).1.2 := by
  obtain ⟨known', said', hrun, hknown'⟩ := h known hknown said
  rwa [hrun]

end Settles

/-! ## Descriptions and dependencies -/

/-- Reading a description over that of the parent comes to what the file tells over it. -/
theorem settles_readPom {f : Coordinate → Resolving (Option Pom)}
    {told : Coordinate → Except Fault (Option Pom)}
    (hf : ∀ p, r.IsParent c p → r.Settles (f p) (told p)) :
    r.Settles (r.readPom f c) (r.toldOver told c) := by
  have hread : r.Settles (Resolving.lift (Logged.of (r.description? c))) (r.description? c) :=
    .lift (.of _)
  have hresult : r.toldOver told c = r.description? c >>= fun root? =>
      root?.elim (.ok none) fun root =>
        (Pom.parent? root).elim (.ok (some (Pom.ofElement c {} root))) fun p =>
          (told p).map fun inherited => some (Pom.ofElement c (inherited.getD {}) root) := by
    unfold toldOver
    rcases r.description? c with e | _ | root
    · rfl
    · rfl
    · rw [Except.bind_of_ok rfl, Option.elim_some]
      dsimp only
      cases Pom.parent? root <;> rfl
  rw [hresult, readPom]
  refine hread.bind fun root? hroot => ?_
  cases root? with
  | none => exact .pure none
  | some root =>
    rw [Option.elim_some]
    cases hparent : Pom.parent? root with
    | none => simpa only [hparent] using .pure _
    | some p =>
      simp only [hparent]
      exact (hf p (isParent_iff.2 ⟨root, hroot, hparent⟩)).bind fun _ _ => .pure _

/-- Looking up what is known goes on with it. -/
theorem run_get_bind {f : PomCache → Resolving β} (known : PomCache) (said : List Record) :
    ((getThe PomCache >>= f).run.run known).run said = ((f known).run.run known).run said :=
  rfl

/-- What is known is taken. -/
theorem run_pomWithin_of_known {n : Nat} {known : PomCache} {pom : Option Pom}
    (h : known.get? c = some pom) (said : List Record) :
    ((r.pomWithin (n + 1) c).run.run known).run said = ((.ok pom, known), said) := by
  rw [pomWithin, run_get_bind, h]
  rfl

/-- What is not known is read and kept. -/
theorem run_pomWithin_of_unknown {n : Nat} {known : PomCache} (h : known.get? c = none)
    (said : List Record) : ((r.pomWithin (n + 1) c).run.run known).run said =
      ((r.readPom (r.pomWithin n) c >>= fun pom => do
        modifyThe PomCache (·.insert c pom)
        return pom : Resolving (Option Pom)).run.run known).run said := by
  rw [pomWithin, run_get_bind, h]

/-- A description that is known is true already, and one that is read may be kept. -/
theorem settles_pomWithin_succ {n : Nat}
    (h : r.Settles (r.readPom (r.pomWithin n) c) (r.told c)) :
    r.Settles (r.pomWithin (n + 1) c) (r.told c) := by
  intro known hknown said
  rcases hget : known.get? c with _ | pom
  · obtain ⟨mid, said', hmid, htrue⟩ := h known hknown said
    rw [run_pomWithin_of_unknown hget, ExceptT.run_bind, StateT.run_bind, StateT.run_bind, hmid]
    rcases htold : r.told c with e | pom
    · exact ⟨mid, said', rfl, htrue⟩
    · exact ⟨mid.insert c pom, said', rfl, htrue.insert htold⟩
  · rw [run_pomWithin_of_known hget, hknown c pom hget]
    exact ⟨known, said, rfl, hknown⟩

/-- The induction is on the descriptions that there may be, which are enough for the chain of
parents. -/
theorem settles_pomWithin {n : Nat} (h : r.EndsWithin n c) (hends : r.Ends c) :
    r.Settles (r.pomWithin n c) (r.told c) := by
  induction n generalizing c with
  | zero => exact h.elim
  | succ n ih =>
    refine settles_pomWithin_succ ?_
    rw [told_eq hends]
    exact settles_readPom fun p hp => ih (h p hp) (hends.parent hp)

/-- A description is settled if the chain of its parents ends. -/
theorem settles_pom? (h : r.Ends c) : r.Settles (r.pom? c) (r.told c) := settles_pomWithin h h

/-- A description whose chain of parents ends is settled in one way only, which is what the files
tell. -/
theorem settles_pom?_iff (h : r.Ends c) {result : Except Fault (Option Pom)} :
    r.Settles (r.pom? c) result ↔ r.told c = result :=
  ⟨(settles_pom? h).unique, fun htold => htold ▸ settles_pom? h⟩

/-- The dependencies that count of a library, by its description. -/
def dependenciesBy (c : Coordinate) : Option Pom → Except Fault (List Dependency)
  | some pom => (pom.followed c).outcome.1
  | none => .ok []

/-- The dependencies that count of a library, by the files alone. -/
def toldDependencies (r : Repository) (c : Coordinate) : Except Fault (List Dependency) :=
  r.told c >>= dependenciesBy c

/-- The dependencies that count of a library are settled to what the files tell, if the chain of its
parents ends. -/
theorem settles_dependenciesOf (h : r.Ends c) :
    r.Settles (r.dependenciesOf c) (r.toldDependencies c) := by
  refine (settles_pom? h).bind fun pom _ => ?_
  cases pom with
  | some pom => exact .lift (pom.steady_followed c)
  | none => exact Settles.of_returns_bind (.say _) (.pure [])

end Repository

namespace Resolution

variable {r : Repository}

/-- The libraries of a level whose descriptions are read, with their coordinates. -/
def work (next : List Selection) : List (Selection × Coordinate) :=
  next.filterMap fun s => s.version.map fun v => (s, .ofLibrary s.library v)

/-- What is found for the libraries of a level, by the files alone. -/
def toldFound (r : Repository) (next : List Selection) :
    Except Fault (List (Selection × List Dependency)) :=
  (work next).mapM fun (s, c) => do return (s, ← r.toldDependencies c)

/-- What is found for a library, by the files alone. -/
def toldOf (r : Repository) (s : Selection) : Except Fault (Option (Selection × List Dependency)) :=
  match s.version with
  | none => .ok none
  | some v => do return some (s, ← r.toldDependencies (.ofLibrary s.library v))

/-- The dependencies of a selection are settled, if those of every coordinate are. -/
theorem settles_dependenciesOf (h : ∀ c, r.Ends c) (s : Selection) :
    r.Settles (dependenciesOf r s) (toldOf r s) := by
  unfold dependenciesOf toldOf
  cases s.version with
  | none => exact Repository.Settles.pure none
  | some v =>
    dsimp only
    exact (Repository.settles_dependenciesOf (h _)).bind fun _ _ => .pure _

/-- What is found at a level are the selections that have a description. -/
theorem filterMap_toldOf (r : Repository) (next : List Selection) :
    (next.mapM (toldOf r)).map (·.filterMap id) = toldFound r next := by
  rw [toldFound]
  induction next with
  | nil => rfl
  | cons s next ih =>
    rw [List.mapM_cons, toldOf]
    rcases hversion : s.version with _ | v
    · have hwork : work (s :: next) = work next := by
        rw [work, List.filterMap_cons, hversion]
        rfl
      rw [hwork, ← ih]
      rcases next.mapM (toldOf r) with e | found <;> rfl
    · have hwork : work (s :: next) = (s, .ofLibrary s.library v) :: work next := by
        rw [work, List.filterMap_cons, hversion]
        rfl
      rw [hwork, List.mapM_cons, ← ih]
      generalize next.mapM (toldOf r) = found
      dsimp only
      cases r.toldDependencies (.ofLibrary s.library v) with
      | error e => rfl
      | ok ds => cases found <;> rfl

/-- How far a level comes, by the files alone. -/
def toldLevel (r : Repository) (top : List String) (s : Progress) : Except Fault Progress :=
  toldFound r s.next >>= fun found =>
    (found.foldlM (meetAll r top) { s with next := [] }).outcome.1

/-- What is met does not depend on what was said. -/
theorem steady_meets (r : Repository) (top : List String)
    (found : List (Selection × List Dependency)) (s : Progress) :
    (found.foldlM (meetAll r top) s).IsSteady := by
  have hmeetAll : ∀ s found, (meetAll r top s found).IsSteady := fun s found =>
    Logged.IsSteady.foldlM (steady_meet r top found.1) found.2 s
  exact Logged.IsSteady.foldlM hmeetAll found s

/-- A level settles as it is told. -/
theorem settles_level (h : ∀ c, r.Ends c) (top : List String) (s : Progress) :
    r.Settles (level r top s) (toldLevel r top s) := by
  have hfound := (Repository.Settles.mapM (settles_dependenciesOf h) s.next).aside
  have hresult : toldLevel r top s = s.next.mapM (toldOf r) >>= fun found =>
      ((found.filterMap id).foldlM (meetAll r top) { s with next := [] }).outcome.1 := by
    rw [toldLevel, ← filterMap_toldOf]
    rcases s.next.mapM (toldOf r) with e | found <;> rfl
  rw [hresult, level]
  exact hfound.bind fun found _ => .lift (steady_meets r top _ _)

/-- How far the levels come, by the files alone. -/
def toldLevels (r : Repository) (top : List String) : Nat → Progress → Except Fault Progress
  | 0, s => if s.next.isEmpty then .ok s else .error (.resolution .endless)
  | fuel + 1, s =>
    if s.next.isEmpty then .ok s else toldLevel r top s >>= toldLevels r top fuel

/-- All levels come as far as the files alone tell, whatever was remembered before. -/
theorem settles_levels (h : ∀ c, r.Ends c) (top : List String) (fuel : Nat) (s : Progress) :
    r.Settles (levels r top fuel s) (toldLevels r top fuel s) := by
  induction fuel generalizing s with
  | zero =>
    rw [levels, toldLevels]
    split
    · exact .pure s
    · exact .throw _
  | succ fuel ih =>
    rw [levels, toldLevels]
    split
    · exact .pure s
    · exact (settles_level h top s).bind fun s' _ => ih s'

/-- The basis of a manifest under aliases, of the source entries and how far resolution came. -/
def basisOf (m : Manifest) (aliases : List String) (sources : List ClasspathEntry)
    (s : Progress) : Basis where
  classpath := sources ++ libraryEntries s.selected
  trace := s.trace
  paths := (m.keyedPaths aliases).keys.map .str
  deps := m.topLevel aliases
  repositories := repositoriesOf m

/-- What a manifest comes to, by the files alone. -/
def toldWithin (r : Repository) (m : Manifest) (aliases : List String) (fuel : Nat) :
    Except Fault (Progress × Basis) := do
  let sources ← m.sourceEntries aliases
  let selections ← topSelections r m (m.topLevel aliases)
  let s ← toldLevels r (m.topLevel aliases).keys fuel (start selections)
  return (s, basisOf m aliases sources s)

/-- A resolution comes to the same, whatever true descriptions are known at first. -/
theorem settles_within (h : ∀ c, r.Ends c) (m : Manifest) (aliases : List String) (fuel : Nat) :
    r.Settles (within r m aliases fuel) (toldWithin r m aliases fuel) := by
  have hsources : r.Settles (Resolving.lift (Logged.of (m.sourceEntries aliases)))
      (m.sourceEntries aliases) := .lift (.of _)
  have htops : r.Settles (Resolving.lift (Logged.of (topSelections r m (m.topLevel aliases))))
      (topSelections r m (m.topLevel aliases)) := .lift (.of _)
  refine hsources.bind fun sources _ => ?_
  refine Repository.Settles.of_returns_bind (.sayAll (m.undefinedNotes aliases)) ?_
  refine htops.bind fun selections _ => (settles_levels h _ fuel _).bind fun s _ => ?_
  exact Repository.Settles.of_returns_bind (.say _) (.pure _)

end Resolution

end BuildFiles
