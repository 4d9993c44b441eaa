import BuildFiles.Proofs.Resolution.Cache
import Mathlib.Algebra.GroupWithZero.Nat

/-!
# Workers that read descriptions at once

The descriptions of the libraries of a level are loaded by workers that take turns in any order and
share what is known. A `Load` is how far one of them is, and `Load.step` what it does next without
being interrupted: it looks whether a description is known, takes it, reads a file, or keeps what it
read. In a step of a `Pool` any load that is not over takes its step.

What a load comes to in the end is told by the files alone (`Load.result`), and no step of any load
changes that (`Pool.IsSound.step`). So the results of a pool are those of loads that are done one
after the other (`Pool.IsSound.collect_eq`), whatever the order of the steps, and there is an end to
the steps (`Pool.Steps.le_effort`).
-/

namespace BuildFiles

/-- How far the loading of a description is. The libraries that wait for a description are those
that name it as their parent, with their elements and the nearest first. -/
inductive Load where
  /-- about to look whether the description is known -/
  | look (c : Coordinate) (waiting : List (Coordinate × Xml.Element))
  /-- about to take what is known -/
  | take (c : Coordinate) (waiting : List (Coordinate × Xml.Element))
  /-- about to read the file -/
  | read (c : Coordinate) (waiting : List (Coordinate × Xml.Element))
  /-- about to keep what was read -/
  | keep (c : Coordinate) (pom : Option Pom) (waiting : List (Coordinate × Xml.Element))
  /-- about to hand the description to whoever waits for it -/
  | give (pom : Option Pom) (waiting : List (Coordinate × Xml.Element))
  /-- ended, with the description or a fault -/
  | ended (result : Except Fault (Option Pom))

namespace Load

/-- The load is over. -/
def IsOver : Load → Prop
  | ended _ => True
  | _ => False

/-- What is done next when the file was read. -/
def afterReading (c : Coordinate) (waiting : List (Coordinate × Xml.Element)) :
    Except Fault (Option Xml.Element) → Load
  | .error e => ended (.error e)
  | .ok none => keep c none waiting
  | .ok (some root) =>
    match Pom.parent? root with
    | none => keep c (some (Pom.ofElement c {} root)) waiting
    | some p => look p ((c, root) :: waiting)

/-- What is done next when a description is handed on. -/
def afterGiving (pom : Option Pom) : List (Coordinate × Xml.Element) → Load
  | [] => ended (.ok pom)
  | (c, root) :: waiting => keep c (some (Pom.ofElement c (pom.getD {}) root)) waiting

/-- What a load does at once, over what is known, and what is known then. -/
def step (r : Repository) (known : PomCache) : Load → Load × PomCache
  | look c waiting => (if known.has c then take c waiting else read c waiting, known)
  | take c waiting =>
    match known.get? c with
    | some pom => (give pom waiting, known)
    | none => (ended (.error (.lacking c.library (known.keys.map Coordinate.library))), known)
  | read c waiting => (afterReading c waiting (r.description? c), known)
  | keep c pom waiting => (give pom waiting, known.insert c pom)
  | give pom waiting => (afterGiving pom waiting, known)
  | ended result => (ended result, known)

/-! ## What a load comes to -/

/-- The description of the last one that waits. -/
def passedOn : List (Coordinate × Xml.Element) → Option Pom → Option Pom
  | [], pom => pom
  | (c, root) :: waiting, pom => passedOn waiting (some (Pom.ofElement c (pom.getD {}) root))

/-- What the load comes to in the end, by the files alone. -/
def result (r : Repository) : Load → Except Fault (Option Pom)
  | look c waiting => (r.told c).map (passedOn waiting)
  | take c waiting => (r.told c).map (passedOn waiting)
  | read c waiting => (r.told c).map (passedOn waiting)
  | keep _ pom waiting => .ok (passedOn waiting pom)
  | give pom waiting => .ok (passedOn waiting pom)
  | ended result => result

/-- The first one that waits names the library as its parent, and each other one the one before. -/
def Waits (r : Repository) : Coordinate → List (Coordinate × Xml.Element) → Prop
  | _, [] => True
  | p, (c, root) :: waiting =>
    r.description? c = .ok (some root) ∧ Pom.parent? root = some p ∧ Waits r c waiting

/-- What a load is about to do is right: what it takes is known, and what it has read is true. -/
def IsSound (r : Repository) (known : PomCache) : Load → Prop
  | look c waiting => Waits r c waiting
  | take c waiting => known.has c = true ∧ Waits r c waiting
  | read c waiting => Waits r c waiting
  | keep c pom waiting => r.told c = .ok pom ∧ Waits r c waiting
  | give pom waiting => ∃ c, r.told c = .ok pom ∧ Waits r c waiting
  | ended _ => True

variable {r : Repository} {known : PomCache}

/-- What is known is never forgotten. -/
theorem has_step (load : Load) {c : Coordinate} (h : known.has c = true) :
    (load.step r known).2.has c = true := by
  cases load with
  | keep c' pom waiting =>
    rw [step, Entries.has_eq_true_iff, Entries.mem_keys_insert, ← Entries.has_eq_true_iff]
    exact .inr h
  | take c' waiting =>
    rw [step]
    split <;> exact h
  | _ => exact h

/-- A load that is about to do something right stays so when more is known. -/
theorem IsSound.of_more {load : Load} {more : PomCache} (h : load.IsSound r known)
    (hmore : ∀ c, known.has c = true → more.has c = true) : load.IsSound r more := by
  cases load with
  | take c waiting => exact ⟨hmore c h.1, h.2⟩
  | _ => exact h

/-- A step is right: what is known then is true, the load is about to do something right again, and
it comes to the same. -/
structure StepsWell (r : Repository) (known : PomCache) (load : Load) : Prop where
  isTrue : r.IsTrue (load.step r known).2
  sound : (load.step r known).1.IsSound r (load.step r known).2
  result : (load.step r known).1.result r = load.result r

section Steps

variable {c : Coordinate} {pom : Option Pom} {waiting : List (Coordinate × Xml.Element)}

theorem stepsWell_look (hknown : r.IsTrue known) (h : Waits r c waiting) :
    (look c waiting).StepsWell r known := by
  by_cases hc : known.has c = true
  · have hstep : (look c waiting).step r known = (take c waiting, known) := by
      rw [step, if_pos hc]
    exact ⟨hstep ▸ hknown, hstep ▸ ⟨hc, h⟩, by rw [hstep]; rfl⟩
  · have hstep : (look c waiting).step r known = (read c waiting, known) := by
      rw [step, if_neg hc]
    exact ⟨hstep ▸ hknown, hstep ▸ h, by rw [hstep]; rfl⟩

theorem stepsWell_take (hknown : r.IsTrue known) (hc : known.has c = true)
    (h : Waits r c waiting) : (take c waiting).StepsWell r known := by
  rw [Entries.has_eq_isSome, Option.isSome_iff_exists] at hc
  obtain ⟨pom, hpom⟩ := hc
  have hstep : (take c waiting).step r known = (give pom waiting, known) := by
    rw [step, hpom]
  have htold := hknown c pom hpom
  refine ⟨hstep ▸ hknown, hstep ▸ ⟨c, htold, h⟩, ?_⟩
  rw [hstep, result, result, htold]
  rfl

/-- A load that reads a file steps well: what it leaves to be done is what the file tells it to, be
it a parent to wait for or a description to remember. -/
theorem stepsWell_read (hends : r.Ends c) (hknown : r.IsTrue known) (h : Waits r c waiting) :
    (read c waiting).StepsWell r known := by
  refine ⟨hknown, ?_, ?_⟩
  · rw [step]
    rcases hfile : r.description? c with e | _ | root
    · trivial
    · exact ⟨r.told_of_missing hends hfile, h⟩
    · rcases hparent : Pom.parent? root with _ | p
      · simp only [afterReading, hparent]
        exact ⟨r.told_of_alone hends hfile hparent, h⟩
      · simp only [afterReading, hparent]
        exact ⟨hfile, hparent, h⟩
  · rw [step, result]
    rcases hfile : r.description? c with e | _ | root
    · rw [r.told_of_error hends hfile]
      rfl
    · rw [r.told_of_missing hends hfile]
      rfl
    · rcases hparent : Pom.parent? root with _ | p
      · rw [r.told_of_alone hends hfile hparent]
        simp only [afterReading, hparent]
        rfl
      · rw [r.told_of_parent hends hfile hparent]
        simp only [afterReading, hparent]
        rw [result]
        cases r.told p <;> rfl

theorem stepsWell_keep (hknown : r.IsTrue known) (hpom : r.told c = .ok pom)
    (h : Waits r c waiting) : (keep c pom waiting).StepsWell r known :=
  ⟨hknown.insert hpom, ⟨c, hpom, h⟩, rfl⟩

theorem stepsWell_give (hends : ∀ c, r.Ends c) (hknown : r.IsTrue known)
    (hpom : r.told c = .ok pom) (h : Waits r c waiting) : (give pom waiting).StepsWell r known := by
  cases waiting with
  | nil => exact ⟨hknown, trivial, rfl⟩
  | cons first waiting =>
    obtain ⟨hfile, hparent, hwaits⟩ := h
    refine ⟨hknown, ⟨?_, hwaits⟩, rfl⟩
    rw [r.told_of_parent (hends _) hfile hparent, hpom]
    rfl

/-- Every step is right where every chain of parents ends, one case for each thing that is done. -/
theorem IsSound.stepsWell {load : Load} (hends : ∀ c, r.Ends c) (hknown : r.IsTrue known)
    (h : load.IsSound r known) : load.StepsWell r known := by
  cases load with
  | look c waiting => exact stepsWell_look hknown h
  | take c waiting => exact stepsWell_take hknown h.1 h.2
  | read c waiting => exact stepsWell_read (hends c) hknown h
  | keep c pom waiting => exact stepsWell_keep hknown h.1 h.2
  | give pom waiting =>
    obtain ⟨c, hpom, hwaits⟩ := h
    exact stepsWell_give hends hknown hpom hwaits
  | ended result => exact ⟨hknown, trivial, rfl⟩

end Steps

/-! ## How much is left to do -/

/-- How many steps a load takes at most. -/
def effort (r : Repository) : Load → Nat
  | look c waiting => 4 * r.depth c + 2 * waiting.length + 4
  | read c waiting => 4 * r.depth c + 2 * waiting.length + 3
  | take _ waiting => 2 * waiting.length + 2
  | keep _ _ waiting => 2 * waiting.length + 2
  | give _ waiting => 2 * waiting.length + 1
  | ended _ => 0

/-- A load that is not over has less to do after each of its steps. A lookup may end it, a file
leads to a parent that is nearer to the end of the chain, and each description that waits is put
together once. -/
theorem effort_step_lt (hends : ∀ c, r.Ends c) {load : Load} (h : ¬ load.IsOver) :
    (load.step r known).1.effort r < load.effort r := by
  cases load with
  | look c waiting =>
    rw [step]
    split <;> simp only [effort] <;> omega
  | take c waiting =>
    rw [step]
    split <;> simp only [effort] <;> omega
  | read c waiting =>
    rw [step]
    rcases hfile : r.description? c with e | _ | root
    · simp only [afterReading, effort]
      omega
    · simp only [afterReading, effort]
      omega
    · rcases hparent : Pom.parent? root with _ | p
      · simp only [afterReading, hparent, effort]
        omega
      · have hp : r.IsParent c p := Repository.isParent_iff.2 ⟨root, hfile, hparent⟩
        simp only [afterReading, hparent, effort, List.length_cons,
          Repository.depth_of_isParent (hends c) hp]
        omega
  | keep c pom waiting =>
    simp only [step, effort]
    omega
  | give pom waiting =>
    cases waiting <;> simp only [step, afterGiving, effort, List.length_cons, List.length_nil] <;>
      omega
  | ended result => exact absurd trivial h

end Load

/-- Loads that share what is known, in the order in which they were handed out. -/
structure Pool where
  known : PomCache
  loads : List Load

namespace Pool

variable {r : Repository} {cs : List Coordinate} {p p' : Pool}

/-- The loads of the descriptions of libraries, none of which did anything yet. -/
def start (known : PomCache) (cs : List Coordinate) : Pool :=
  ⟨known, cs.map fun c => .look c []⟩

/-- One of the loads that are not over takes a step. -/
inductive Step (r : Repository) : Pool → Pool → Prop
  | load {known : PomCache} {before after : List Load} {load : Load} (hover : ¬ load.IsOver) :
    Step r ⟨known, before ++ load :: after⟩
      ⟨(load.step r known).2, before ++ (load.step r known).1 :: after⟩

/-- That many steps, whichever loads take them. -/
inductive Steps (r : Repository) : Nat → Pool → Pool → Prop
  | none (p : Pool) : Steps r 0 p p
  | more {n : Nat} {p mid p' : Pool} (hsteps : Steps r n p mid) (hstep : Step r mid p') :
    Steps r (n + 1) p p'

/-- What is known is true, and the loads come to the descriptions of the libraries. -/
structure IsSound (r : Repository) (cs : List Coordinate) (p : Pool) : Prop where
  known : r.IsTrue p.known
  sound : ∀ load ∈ p.loads, load.IsSound r p.known
  results : p.loads.map (Load.result r) = cs.map r.told

theorem isSound_start {known : PomCache} (h : r.IsTrue known) (cs : List Coordinate) :
    (start known cs).IsSound r cs where
  known := h
  sound := by
    intro load hload
    obtain ⟨c, -, rfl⟩ := List.mem_map.1 hload
    trivial
  results := by
    rw [start, List.map_map]
    refine List.map_congr_left fun c _ => ?_
    rw [Function.comp_apply, Load.result]
    cases r.told c <;> rfl

/-- The loads that take no step may go on as they would have. -/
theorem IsSound.step (hends : ∀ c, r.Ends c) (h : p.IsSound r cs) (hstep : Step r p p') :
    p'.IsSound r cs := by
  obtain ⟨hover⟩ := hstep
  rename_i known before after load
  have hall := h.sound
  rw [List.forall_mem_append, List.forall_mem_cons] at hall
  obtain ⟨hbefore, hload, hafter⟩ := hall
  have hwell := hload.stepsWell hends h.known
  have hmore : ∀ c, known.has c = true → (load.step r known).2.has c = true :=
    fun c => load.has_step
  refine ⟨hwell.isTrue, ?_, ?_⟩
  · rw [List.forall_mem_append, List.forall_mem_cons]
    exact ⟨fun l hl => (hbefore l hl).of_more hmore, hwell.sound,
      fun l hl => (hafter l hl).of_more hmore⟩
  · rw [← h.results]
    simp only [List.map_append, List.map_cons, hwell.result]

theorem IsSound.steps (hends : ∀ c, r.Ends c) (h : p.IsSound r cs) {n : Nat}
    (hsteps : Steps r n p p') : p'.IsSound r cs := by
  induction hsteps with
  | none => exact h
  | more _ hstep ih => exact (ih h).step hends hstep

/-! ## The end of the steps -/

/-- How many steps there are at most. -/
def effort (r : Repository) (p : Pool) : Nat := (p.loads.map (Load.effort r)).sum

theorem Step.effort_lt (hends : ∀ c, r.Ends c) (hstep : Step r p p') :
    p'.effort r < p.effort r := by
  obtain ⟨hover⟩ := hstep
  rename_i known before after load
  have hlt : (load.step r known).1.effort r < load.effort r := Load.effort_step_lt hends hover
  simp only [effort, List.map_append, List.map_cons, List.sum_append, List.sum_cons]
  omega

theorem Steps.le_effort (hends : ∀ c, r.Ends c) {n : Nat} (hsteps : Steps r n p p') :
    n + p'.effort r ≤ p.effort r := by
  induction hsteps with
  | none => exact Nat.le_of_eq (Nat.zero_add _)
  | more _ hstep ih =>
    have hlt := hstep.effort_lt hends
    omega

theorem effort_start_le (r : Repository) (known : PomCache) (cs : List Coordinate) :
    (start known cs).effort r ≤ cs.length * (4 * (r.tree.files.length + 2)) := by
  induction cs with
  | nil => exact Nat.zero_le _
  | cons c cs ih =>
    have hdepth : r.depth c ≤ r.tree.files.length + 1 := Repository.depthWithin_le _ c
    simp only [effort, start, List.map_cons, List.sum_cons, Load.effort, List.length_nil,
      List.length_cons, Nat.succ_mul] at ih ⊢
    omega

/-- A load that is not over can take a step. -/
theorem exists_step {load : Load} (hload : load ∈ p.loads) (hover : ¬ load.IsOver) :
    ∃ p', Step r p p' := by
  obtain ⟨known, loads⟩ := p
  obtain ⟨before, after, rfl⟩ := List.append_of_mem hload
  exact ⟨_, .load hover⟩

/-! ## The results -/

/-- The results of the loads of the libraries, as far as they are there: those of the loads before
the first one that is not over or that fails, in the order in which they were handed out. There is
nothing yet if that one is not over, and its fault if it failed. -/
def collect : List (Selection × Coordinate) → List Load →
    Option (Except Fault (List (Selection × List Dependency)))
  | (s, c) :: work, .ended result :: loads =>
    match result >>= Repository.dependenciesBy c with
    | .error e => some (.error e)
    | .ok ds => (collect work loads).map fun found => found.map ((s, ds) :: ·)
  | [], [] => some (.ok [])
  | _, _ => none

/-- What was collected is what the files tell, as every load is sound and has ended. -/
theorem collect_eq {work : List (Selection × Coordinate)} {loads : List Load}
    {found : Except Fault (List (Selection × List Dependency))}
    (hresults : loads.map (Load.result r) = work.map fun w => r.told w.2)
    (h : collect work loads = some found) :
    found = work.mapM fun (s, c) => do return (s, ← r.toldDependencies c) := by
  induction work generalizing loads found with
  | nil =>
    obtain rfl := List.map_eq_nil_iff.1 hresults
    exact (Option.some.inj h).symm
  | cons w work ih =>
    obtain ⟨s, c⟩ := w
    obtain ⟨load, loads, rfl⟩ : ∃ load more, loads = load :: more := by
      cases loads with
      | nil => cases hresults
      | cons load more => exact ⟨load, more, rfl⟩
    obtain ⟨hresult, hrest⟩ := List.cons.inj hresults
    cases load with
    | ended result =>
      obtain rfl : result = r.told c := hresult
      rw [collect] at h
      rw [List.mapM_cons]
      dsimp only
      rw [Repository.toldDependencies]
      cases hds : r.told c >>= Repository.dependenciesBy c with
      | error e =>
        rw [hds] at h
        exact (Option.some.inj h).symm
      | ok ds =>
        rw [hds] at h
        obtain ⟨found', hfound', rfl⟩ := Option.map_eq_some_iff.1 h
        rw [ih hrest hfound']
        rfl
    | _ => cases h

/-- As long as there is nothing to collect, some load is not over. -/
theorem exists_not_over {work : List (Selection × Coordinate)} {loads : List Load}
    (hlength : loads.length = work.length) (h : collect work loads = none) :
    ∃ load ∈ loads, ¬ load.IsOver := by
  induction work generalizing loads with
  | nil =>
    obtain rfl := List.length_eq_zero_iff.1 hlength
    cases h
  | cons w work ih =>
    obtain ⟨s, c⟩ := w
    cases loads with
    | nil => cases hlength
    | cons load loads =>
      cases load with
      | ended result =>
        rw [collect] at h
        split at h
        · cases h
        · obtain ⟨load, hload, hover⟩ := ih (Nat.succ.inj hlength) (Option.map_eq_none_iff.1 h)
          exact ⟨load, List.mem_cons_of_mem _ hload, hover⟩
      | _ => exact ⟨_, List.mem_cons_self, id⟩

theorem Step.length_loads (hstep : Step r p p') : p'.loads.length = p.loads.length := by
  obtain ⟨-⟩ := hstep
  simp only [List.length_append, List.length_cons]

theorem Steps.head {n : Nat} {mid : Pool} (hstep : Step r p mid) (hsteps : Steps r n mid p') :
    Steps r (n + 1) p p' := by
  induction hsteps with
  | none => exact .more (.none _) hstep
  | more _ hlast ih => exact .more (ih hstep) hlast

/-- The loads can go on until there is something to collect. The induction is on the steps that are
left to take. -/
theorem exists_collect (hends : ∀ c, r.Ends c) {work : List (Selection × Coordinate)}
    (hlength : p.loads.length = work.length) :
    ∃ n p' found, Steps r n p p' ∧ collect work p'.loads = some found := by
  induction hleft : p.effort r using Nat.strong_induction_on generalizing p with
  | _ left ih =>
    cases hcollect : collect work p.loads with
    | some found => exact ⟨0, p, found, .none p, hcollect⟩
    | none =>
      obtain ⟨load, hload, hover⟩ := exists_not_over hlength hcollect
      obtain ⟨mid, hstep⟩ := exists_step hload hover
      obtain ⟨n, p', found, hsteps, hfound⟩ :=
        ih _ (hleft ▸ hstep.effort_lt hends) (hstep.length_loads.trans hlength) rfl
      exact ⟨n + 1, p', found, hsteps.head hstep, hfound⟩

end Pool

end BuildFiles
