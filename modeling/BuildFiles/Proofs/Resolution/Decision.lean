import BuildFiles.Proofs.Resolution.Description
import Mathlib.Data.List.Nodup

/-!
# What is decided about a dependency

Resolution meets one dependency after the other. `Meets` says what a single meeting does to what was
resolved so far, in four cases. `Decided` is what holds of the libraries that are taken in and of
the trace after any number of meetings: each library is taken in once and stays as it is, each
meeting is answered by one record, and the record that takes a library in comes before all others of
it that do not exclude it. One meeting keeps it (`Decided.meets`).
-/

namespace BuildFiles

namespace Resolution

/-- A dependency that is met by way of a library that is taken in. -/
structure Visit where
  parent : Selection
  dependency : Dependency

namespace Visit

/-- The library that is taken in when it is met for the first time. -/
def taken (v : Visit) (archive : Path) : Selection where
  library := v.dependency.library
  path := v.parent.way
  version := some v.dependency.version
  archive := archive
  exclusions := (v.parent.exclusions ++ v.dependency.exclusions).eraseDups

/-- The way through what is taken in goes on from the way through the parent. -/
theorem way_taken (v : Visit) (archive : Path) :
    (v.taken archive).way = v.parent.way ++ [v.dependency.library] := rfl

/-- What is said about a library that is taken in already. -/
def verdict (v : Visit) (existing : Selection) : String :=
  if existing.version = some v.dependency.version then "same-version" else "version-conflict"

/-- A record of the visit. -/
def record (v : Visit) (reason : String) : TraceRecord :=
  ⟨v.parent.way, v.dependency.library, reason⟩

end Visit

/-- The names of libraries. -/
def libraryNames (taken : List Selection) : List String := taken.map (·.library)

/-- The libraries that are taken in, by their names. -/
def byLibrary (taken : List Selection) : Entries String Selection :=
  taken.map fun s => (s.library, s)

theorem keys_byLibrary (taken : List Selection) :
    (byLibrary taken).keys = libraryNames taken := by
  rw [Entries.keys, byLibrary, List.map_map]
  rfl

/-- Selections can be looked up by their libraries if each library is selected once. -/
theorem get?_byLibrary {taken : List Selection} (h : (libraryNames taken).Nodup) {l : String}
    {s : Selection} : (byLibrary taken).get? l = some s ↔ s ∈ taken ∧ s.library = l := by
  induction taken with
  | nil => simp [byLibrary]
  | cons t taken ih =>
    obtain ⟨hnew, hrest⟩ := List.nodup_cons.1 h
    rw [byLibrary, List.map_cons, Entries.get?_cons]
    by_cases ht : t.library = l
    · rw [if_pos (by simpa using ht), Option.some.injEq]
      constructor
      · rintro rfl
        exact ⟨List.mem_cons_self, ht⟩
      · rintro ⟨hs, hl⟩
        rcases List.mem_cons.1 hs with rfl | hs
        · rfl
        · exact absurd (List.mem_map.2 ⟨s, hs, hl.trans ht.symm⟩) hnew
    · rw [if_neg (by simpa using ht)]
      refine (ih hrest).trans ⟨fun ⟨hs, hl⟩ => ⟨List.mem_cons_of_mem t hs, hl⟩, ?_⟩
      rintro ⟨hs, hl⟩
      rcases List.mem_cons.1 hs with rfl | hs
      · exact absurd hl ht
      · exact ⟨hs, hl⟩

/-- A library is taken in once. -/
theorem eq_of_library_eq {taken : List Selection} (h : (libraryNames taken).Nodup)
    {s t : Selection} (hs : s ∈ taken) (ht : t ∈ taken) (hlib : s.library = t.library) : s = t :=
  List.inj_on_of_nodup_map h hs ht hlib

/-! ## One meeting -/

/-- What meeting a dependency makes of what was resolved so far. -/
inductive Meets (r : Repository) (top : List String) (v : Visit) (s : Progress) : Progress → Prop
  /-- the way to the dependency excludes it -/
  | excluded (hout : v.dependency.library ∈ v.parent.exclusions) :
    Meets r top v s (s.record v.parent v.dependency "excluded")
  /-- the manifest names the library -/
  | useTop (hin : v.dependency.library ∉ v.parent.exclusions) (htop : v.dependency.library ∈ top) :
    Meets r top v s (s.record v.parent v.dependency "use-top")
  /-- the library is taken in already -/
  | kept {existing : Selection} (hin : v.dependency.library ∉ v.parent.exclusions)
    (htop : v.dependency.library ∉ top)
    (hthere : s.selected.get? v.dependency.library = some existing) :
    Meets r top v s (s.record v.parent v.dependency (v.verdict existing))
  /-- the library is taken in -/
  | taken {archive : Path} (hin : v.dependency.library ∉ v.parent.exclusions)
    (htop : v.dependency.library ∉ top)
    (hnew : s.selected.get? v.dependency.library = none)
    (harchive : r.archive v.dependency.library v.dependency.version = .ok archive) :
    Meets r top v s ((s.select (v.taken archive)).record v.parent v.dependency "new-dep")

/-- Only which libraries the manifest names matters, not in which order. -/
theorem Meets.congr {r : Repository} {top top' : List String} {v : Visit} {s s' : Progress}
    (h : Meets r top v s s') (htop : ∀ l, l ∈ top ↔ l ∈ top') : Meets r top' v s s' := by
  cases h with
  | excluded hout => exact .excluded hout
  | useTop hin hmem => exact .useTop hin ((htop _).1 hmem)
  | kept hin hnot hthere => exact .kept hin (mt (htop _).2 hnot) hthere
  | taken hin hnot hnew harchive => exact .taken hin (mt (htop _).2 hnot) hnew harchive

/-- Meeting a dependency does one of the things that `Meets` lists. It is the only place where the
step of the loop is taken apart. -/
theorem meets_of_yields {r : Repository} {top : List String} {parent : Selection}
    {s s' : Progress} {d : Dependency} (h : (meet r top parent s d).Yields s') :
    Meets r top ⟨parent, d⟩ s s' := by
  rw [meet] at h
  split at h
  · next hout =>
    rw [h.pure]
    exact .excluded (List.contains_iff_mem.1 hout)
  · next hout =>
    have hin : d.library ∉ parent.exclusions := fun hmem => hout (List.contains_iff_mem.2 hmem)
    split at h
    · next htop =>
      rw [h.pure]
      exact .useTop hin (List.contains_iff_mem.1 htop)
    · next hnot =>
      have htop : d.library ∉ top := fun hmem => hnot (List.contains_iff_mem.2 hmem)
      split at h
      · next existing hthere =>
        -- both ends of this branch are one record, with the verdict as its reason
        have hkept : Meets r top ⟨parent, d⟩ s
            (s.record parent d (Visit.verdict ⟨parent, d⟩ existing)) := .kept hin htop hthere
        rw [Visit.verdict] at hkept
        split at h
        · next hsame =>
          rw [if_pos hsame] at hkept
          rw [h.pure]
          exact hkept
        · next hother =>
          rw [if_neg hother] at hkept
          obtain ⟨_, -, hpure⟩ := h.bind
          rw [hpure.pure]
          exact hkept
      · next hnew =>
        obtain ⟨archive, harchive, hpure⟩ := h.bind
        rw [hpure.pure]
        exact .taken hin htop hnew harchive.of

/-! ## Answers -/

/-- The record that answers a visit, where the libraries that are taken in are known. -/
inductive Answers (top : List String) (taken : List Selection) (v : Visit) : TraceRecord → Prop
  | excluded (hout : v.dependency.library ∈ v.parent.exclusions) :
    Answers top taken v (v.record "excluded")
  | useTop (hin : v.dependency.library ∉ v.parent.exclusions) (htop : v.dependency.library ∈ top) :
    Answers top taken v (v.record "use-top")
  | kept {existing : Selection} (hin : v.dependency.library ∉ v.parent.exclusions)
    (htop : v.dependency.library ∉ top) (hthere : existing ∈ taken)
    (hname : existing.library = v.dependency.library) :
    Answers top taken v (v.record (v.verdict existing))
  | taken {archive : Path} (hin : v.dependency.library ∉ v.parent.exclusions)
    (htop : v.dependency.library ∉ top) (hthere : v.taken archive ∈ taken) :
    Answers top taken v (v.record "new-dep")

namespace Answers

variable {top : List String} {taken : List Selection} {v : Visit} {x : TraceRecord}

theorem path_eq (h : Answers top taken v x) : x.path = v.parent.way := by
  cases h <;> rfl

theorem library_eq (h : Answers top taken v x) : x.library = v.dependency.library := by
  cases h <;> rfl

/-- An answer stays one when more libraries are taken in. -/
theorem append (h : Answers top taken v x) (more : List Selection) :
    Answers top (taken ++ more) v x := by
  cases h with
  | excluded hout => exact .excluded hout
  | useTop hin htop => exact .useTop hin htop
  | kept hin htop hthere hname =>
    exact .kept hin htop (List.mem_append_left more hthere) hname
  | taken hin htop hthere => exact .taken hin htop (List.mem_append_left more hthere)

/-- What an exclusion answers is excluded, and nothing else is. -/
theorem reason_eq_excluded_iff (h : Answers top taken v x) :
    x.reason = "excluded" ↔ v.dependency.library ∈ v.parent.exclusions := by
  cases h with
  | excluded hout => exact ⟨fun _ => hout, fun _ => rfl⟩
  | useTop hin => exact ⟨fun hx => by simp [Visit.record] at hx, fun hx => absurd hx hin⟩
  | kept hin htop hthere hname =>
    refine ⟨fun hx => ?_, fun hx => absurd hx hin⟩
    rw [Visit.record, Visit.verdict] at hx
    split at hx <;> simp at hx
  | taken hin => exact ⟨fun hx => by simp [Visit.record] at hx, fun hx => absurd hx hin⟩

/-- The record that takes a library in comes from the visit that does. -/
theorem exists_taken (h : Answers top taken v x) (hx : x.reason = "new-dep") :
    v.dependency.library ∉ v.parent.exclusions ∧ ∃ archive, v.taken archive ∈ taken := by
  cases h with
  | excluded => simp [Visit.record] at hx
  | useTop => simp [Visit.record] at hx
  | kept =>
    rw [Visit.record, Visit.verdict] at hx
    split at hx <;> simp at hx
  | @taken archive hin htop hthere => exact ⟨hin, archive, hthere⟩

end Answers

/-! ## What is recorded about one library -/

/-- The trace holds the record, all others of its library before it say that it is excluded, and all
after it give one of the reasons. -/
def Recorded (trace : List TraceRecord) (x : TraceRecord) (later : List String) : Prop :=
  ∃ before after, trace = before ++ x :: after ∧
    (∀ y ∈ before, y.library = x.library → y.reason = "excluded") ∧
    ∀ y ∈ after, y.library = x.library → y.reason ∈ later

theorem Recorded.mem {trace : List TraceRecord} {x : TraceRecord} {later : List String}
    (h : Recorded trace x later) : x ∈ trace := by
  obtain ⟨before, after, rfl, -, -⟩ := h
  exact List.mem_append_right _ List.mem_cons_self

theorem Recorded.append {trace : List TraceRecord} {x y : TraceRecord} {later : List String}
    (h : Recorded trace x later) (hy : y.library = x.library → y.reason ∈ later) :
    Recorded (trace ++ [y]) x later := by
  obtain ⟨before, after, rfl, hbefore, hafter⟩ := h
  refine ⟨before, after ++ [y], by simp, hbefore, ?_⟩
  intro z hz hlib
  rcases List.mem_append.1 hz with hz | hz
  · exact hafter z hz hlib
  · obtain rfl := List.mem_singleton.1 hz
    exact hy hlib

/-- The reasons of the records about a library of the manifest, after it is taken in. -/
def topReasons : List String := ["excluded", "use-top"]

/-- The reasons of the records about any other library, after it is taken in. -/
def otherReasons : List String := ["excluded", "same-version", "version-conflict"]

/-- The record of a library of the manifest. -/
def topRecord (s : Selection) : TraceRecord := ⟨[], s.library, "new-top-dep"⟩

/-- The record that takes in any other library. -/
def newRecord (s : Selection) : TraceRecord := ⟨s.path, s.library, "new-dep"⟩

/-! ## Any number of meetings -/

/-- What holds of the libraries that are taken in and of the trace, after the visits. -/
structure Decided (tops : List Selection) (visits : List Visit) (taken : List Selection)
    (trace : List TraceRecord) : Prop where
  /-- a library is taken in once -/
  unique : (libraryNames taken).Nodup
  /-- those of the manifest come first and stay as they are -/
  leading : tops <+: taken
  /-- only what is taken in leads to dependencies -/
  parents : ∀ v ∈ visits, v.parent ∈ taken
  /-- the trace names the libraries of the manifest and answers the visits one by one -/
  answers : ∃ answers, trace = tops.map topRecord ++ answers ∧
    List.Forall₂ (Answers (libraryNames tops) taken) visits answers
  topRecords : ∀ s ∈ tops, Recorded trace (topRecord s) topReasons
  newRecords : ∀ s ∈ taken, s.library ∉ libraryNames tops →
    Recorded trace (newRecord s) otherReasons
  /-- what is not taken in was only excluded -/
  unmet : ∀ x ∈ trace, x.library ∉ libraryNames taken → x.reason = "excluded"

namespace Decided

variable {tops : List Selection} {visits : List Visit} {taken : List Selection}
  {trace : List TraceRecord} {v : Visit}

theorem mem_of_mem_tops (h : Decided tops visits taken trace) {l : String}
    (hl : l ∈ libraryNames tops) : l ∈ libraryNames taken :=
  (h.leading.map _).subset hl

/-- Nothing is decided before the first meeting, apart from the libraries of the manifest, which are
recorded and taken in at once. -/
theorem start {tops : List Selection} (hunique : (libraryNames tops).Nodup) :
    Decided tops [] tops (tops.map topRecord) where
  unique := hunique
  leading := List.prefix_rfl
  parents := by simp
  answers := ⟨[], by simp, .nil⟩
  topRecords := by
    intro s hs
    obtain ⟨before, after, rfl⟩ := List.append_of_mem hs
    refine ⟨before.map topRecord, after.map topRecord, by simp, ?_, ?_⟩
    all_goals
      intro y hy hlib
      obtain ⟨s', hs', rfl⟩ := List.mem_map.1 hy
      simp only [libraryNames, List.map_append, List.map_cons] at hunique
      rw [List.nodup_middle, List.nodup_cons] at hunique
      have hlib' : s'.library = s.library := hlib
      refine absurd ?_ hunique.1
      simp only [List.mem_append, List.mem_map]
    · exact .inl ⟨s', hs', hlib'⟩
    · exact .inr ⟨s', hs', hlib'⟩
  newRecords := fun s hs hnot => absurd (List.mem_map_of_mem hs) hnot
  unmet := by
    intro x hx hnot
    obtain ⟨s, hs, rfl⟩ := List.mem_map.1 hx
    exact absurd (List.mem_map_of_mem hs) hnot

/-- A visit that is answered without taking a library in keeps what is decided. -/
theorem answer (h : Decided tops visits taken trace) (hparent : v.parent ∈ taken)
    {x : TraceRecord} (hx : Answers (libraryNames tops) taken v x) (hold : x.reason ≠ "new-dep") :
    Decided tops (visits ++ [v]) taken (trace ++ [x]) := by
  have hreasons : (x.library ∈ libraryNames tops → x.reason ∈ topReasons) ∧
      (x.library ∉ libraryNames tops → x.reason ∈ otherReasons) ∧
      (x.library ∉ libraryNames taken → x.reason = "excluded") := by
    cases hx with
    | excluded hout => simp [Visit.record, topReasons, otherReasons]
    | useTop hin htop =>
      refine ⟨fun _ => by simp [Visit.record, topReasons], fun hnot => absurd htop hnot, ?_⟩
      exact fun hnot => absurd (h.mem_of_mem_tops htop) hnot
    | kept hin htop hthere hname =>
      refine ⟨fun hmem => absurd hmem htop, fun _ => ?_, fun hnot => ?_⟩
      · rw [Visit.record, Visit.verdict]
        split <;> simp [otherReasons]
      · exact absurd (List.mem_map.2 ⟨_, hthere, hname⟩) hnot
    | taken => exact absurd rfl hold
  obtain ⟨htop, hother, hunmet⟩ := hreasons
  obtain ⟨answers, htrace, hanswers⟩ := h.answers
  refine ⟨h.unique, h.leading, ?_, ?_, ?_, ?_, ?_⟩
  · intro u hu
    rcases List.mem_append.1 hu with hu | hu
    · exact h.parents u hu
    · rw [List.mem_singleton.1 hu]
      exact hparent
  · refine ⟨answers ++ [x], by rw [htrace, List.append_assoc], ?_⟩
    exact List.rel_append hanswers (.cons hx .nil)
  · intro s hs
    exact (h.topRecords s hs).append fun hlib => htop (hlib ▸ List.mem_map_of_mem hs)
  · intro s hs hnot
    exact (h.newRecords s hs hnot).append fun hlib => hother (hlib ▸ hnot)
  · intro y hy hnot
    rcases List.mem_append.1 hy with hy | hy
    · exact h.unmet y hy hnot
    · obtain rfl := List.mem_singleton.1 hy
      exact hunmet hnot

/-- A visit that takes a library in keeps what is decided: the library is new, so no record or
selection before was about it. -/
theorem take (h : Decided tops visits taken trace) (hparent : v.parent ∈ taken)
    {archive : Path} (hin : v.dependency.library ∉ v.parent.exclusions)
    (hnew : v.dependency.library ∉ libraryNames taken) :
    Decided tops (visits ++ [v]) (taken ++ [v.taken archive])
      (trace ++ [v.record "new-dep"]) := by
  have htop : v.dependency.library ∉ libraryNames tops := fun hmem =>
    hnew (h.mem_of_mem_tops hmem)
  obtain ⟨answers, htrace, hanswers⟩ := h.answers
  refine ⟨?_, h.leading.trans (List.prefix_append ..), ?_, ?_, ?_, ?_, ?_⟩
  · rw [libraryNames, List.map_append, List.nodup_append]
    refine ⟨h.unique, List.nodup_singleton _, ?_⟩
    rintro l hl l' hl' rfl
    obtain rfl := List.mem_singleton.1 hl'
    exact hnew hl
  · intro u hu
    rcases List.mem_append.1 hu with hu | hu
    · exact List.mem_append_left _ (h.parents u hu)
    · rw [List.mem_singleton.1 hu]
      exact List.mem_append_left _ hparent
  · refine ⟨answers ++ [v.record "new-dep"], by rw [htrace, List.append_assoc], ?_⟩
    refine List.rel_append (hanswers.imp fun u x hx => hx.append _) (.cons ?_ .nil)
    exact .taken hin htop (List.mem_append_right _ List.mem_cons_self)
  · intro s hs
    refine (h.topRecords s hs).append fun hlib => absurd ?_ htop
    exact List.mem_map.2 ⟨s, hs, hlib.symm⟩
  · intro s hs hnot
    rcases List.mem_append.1 hs with hs | hs
    · refine (h.newRecords s hs hnot).append fun hlib => absurd ?_ hnew
      exact List.mem_map.2 ⟨s, hs, hlib.symm⟩
    · obtain rfl := List.mem_singleton.1 hs
      refine ⟨trace, [], rfl, ?_, by simp⟩
      exact fun y hy hlib => h.unmet y hy (hlib ▸ hnew)
  · intro y hy hnot
    rw [libraryNames, List.map_append, List.mem_append, not_or] at hnot
    rcases List.mem_append.1 hy with hy | hy
    · exact h.unmet y hy hnot.1
    · obtain rfl := List.mem_singleton.1 hy
      exact absurd List.mem_cons_self hnot.2

/-- What a meeting in state `s` comes to in `s'`: libraries that are taken in, and one record on the
way of the visit. -/
structure Step (tops : List Selection) (visits : List Visit) (taken : List Selection)
    (s : Progress) (added : List Selection) (x : TraceRecord) (s' : Progress) : Prop where
  selected : s'.selected = byLibrary (taken ++ added)
  next : s'.next = s.next ++ added
  trace : s'.trace = s.trace ++ [x]
  decided : Decided tops visits (taken ++ added) s'.trace

/-- A meeting that only writes an answer takes nothing in. -/
theorem step_record {s : Progress} (h : Decided tops visits taken s.trace)
    (hs : s.selected = byLibrary taken) (hparent : v.parent ∈ taken) {reason : String}
    (hx : Answers (libraryNames tops) taken v (v.record reason)) (hold : reason ≠ "new-dep") :
    Step tops (visits ++ [v]) taken s [] (v.record reason)
      (s.record v.parent v.dependency reason) where
  selected := by
    rw [List.append_nil]
    exact hs
  next := (List.append_nil _).symm
  trace := rfl
  decided := by
    rw [List.append_nil]
    exact h.answer hparent hx hold

/-- One meeting keeps what is decided. What it takes in is reached by way of the visit, and what it
records is on that way. -/
theorem meets {r : Repository} {s s' : Progress} (h : Decided tops visits taken s.trace)
    (hs : s.selected = byLibrary taken) (hparent : v.parent ∈ taken)
    (hmeets : Meets r (libraryNames tops) v s s') :
    ∃ added x, Step tops (visits ++ [v]) taken s added x s' ∧
      x.path = v.parent.way ∧ ∀ t ∈ added, t.path = v.parent.way := by
  cases hmeets with
  | excluded hout =>
    exact ⟨[], _, h.step_record hs hparent (.excluded hout) (by decide), rfl, by simp⟩
  | useTop hin htop =>
    exact ⟨[], _, h.step_record hs hparent (.useTop hin htop) (by decide), rfl, by simp⟩
  | kept hin htop hthere =>
    rw [hs, get?_byLibrary h.unique] at hthere
    refine ⟨[], _, h.step_record hs hparent (.kept hin htop hthere.1 hthere.2) ?_, rfl, by simp⟩
    rw [Visit.verdict]
    split <;> decide
  | taken hin htop hnew harchive =>
    -- the name is new, so that writing it adds to the end and changes nothing before
    have habsent : v.dependency.library ∉ libraryNames taken := by
      rwa [hs, Entries.get?_eq_none_iff, keys_byLibrary] at hnew
    refine ⟨[v.taken _], v.record "new-dep", ⟨?_, rfl, rfl, ?_⟩, rfl, ?_⟩
    · refine (Entries.insert_eq_append (v.taken _) hnew).trans ?_
      rw [hs, byLibrary, byLibrary, List.map_append]
      rfl
    · exact h.take hparent hin habsent
    · intro t ht
      rw [List.mem_singleton.1 ht]
      rfl

/-- What is not of the manifest is taken in by a visit. -/
theorem exists_source (h : Decided tops visits taken trace) {s : Selection} (hs : s ∈ taken)
    (hnot : s.library ∉ libraryNames tops) :
    ∃ v ∈ visits, ∃ archive, s = v.taken archive := by
  obtain ⟨answers, htrace, hanswers⟩ := h.answers
  have hmem := (h.newRecords s hs hnot).mem
  rw [htrace] at hmem
  rcases List.mem_append.1 hmem with hmem | hmem
  · obtain ⟨t, -, ht⟩ := List.mem_map.1 hmem
    exact absurd (congrArg TraceRecord.reason ht) (by simp [topRecord, newRecord])
  · obtain ⟨v, hv, hanswer⟩ := exists_left_of_forall₂ hanswers hmem
    obtain ⟨-, archive, hthere⟩ := hanswer.exists_taken rfl
    exact ⟨v, hv, archive, eq_of_library_eq h.unique hs hthere hanswer.library_eq⟩

/-- What holds of the libraries of the manifest, and of what a visit takes in if it holds of the
parent, holds of all that is taken in. The induction is on the length of the way, on which the
parent is one library before. -/
theorem induction (h : Decided tops visits taken trace) {P : Selection → Prop}
    (leading : ∀ s ∈ tops, P s)
    (sourced : ∀ v ∈ visits, ∀ archive, v.taken archive ∈ taken →
      v.dependency.library ∉ libraryNames tops → P v.parent → P (v.taken archive)) :
    ∀ s ∈ taken, P s := by
  -- the parent may stand anywhere among what is taken in, but the way to it is shorter
  suffices hlength : ∀ n, ∀ s ∈ taken, s.path.length = n → P s from
    fun s hs => hlength _ s hs rfl
  intro n
  induction n using Nat.strongRecOn with
  | ind n ih =>
    intro s hs hn
    by_cases hnot : s.library ∈ libraryNames tops
    · obtain ⟨t, ht, hlib⟩ := List.mem_map.1 hnot
      obtain rfl := eq_of_library_eq h.unique (h.leading.subset ht) hs hlib
      exact leading t ht
    · obtain ⟨v, hv, archive, rfl⟩ := h.exists_source hs hnot
      refine sourced v hv archive hs hnot (ih _ ?_ v.parent (h.parents v hv) rfl)
      rw [← hn, Visit.taken, Selection.way, List.length_append]
      exact Nat.lt_succ_self _

end Decided

end Resolution

end BuildFiles
