import BuildFiles.Proofs.Resolution.Exclusions
import BuildFiles.Proofs.Text

/-!
# The edges of a resolution

The libraries that a library directly depends on are read off the trace. They are those that it
`Needs`: what its selected version depends on, as far as the exclusions that apply on the way to it
leave it in. `mem_directDependencies_iff_needs` says so, and `exists_archive_of_needs` that a
library that is needed or needs another is on the classpath.
-/

namespace BuildFiles

/-! ## Reading the trace -/

/-- A map that is made from its keys. -/
theorem get?_map_of_keys {κ β : Type} [BEq κ] [LawfulBEq κ] (keys : List κ) (value : κ → β)
    (k : κ) : Entries.get? (keys.map fun k => (k, value k)) k =
      if k ∈ keys then some (value k) else none := by
  induction keys with
  | nil => rfl
  | cons k' keys ih =>
    rw [List.map_cons, Entries.get?_cons, ih]
    by_cases hk : k' = k
    · subst hk
      simp
    · simp [hk, Ne.symm hk]

/-- The libraries that the edges of a trace lead to from a library, in the order of the trace. -/
def edgesFrom (trace : List TraceRecord) (p : String) : List String :=
  ((trace.filterMap TraceRecord.edge?).filter fun e => e.1 == p).map Prod.snd

theorem mem_edgesFrom {trace : List TraceRecord} {p q : String} :
    q ∈ edgesFrom trace p ↔ ∃ x ∈ trace, x.edge? = some (p, q) := by
  simp only [edgesFrom, List.mem_map, List.mem_filter, List.mem_filterMap, beq_iff_eq, Prod.exists]
  constructor
  · rintro ⟨p', q', ⟨⟨x, hx, hedge⟩, rfl⟩, rfl⟩
    exact ⟨x, hx, hedge⟩
  · rintro ⟨x, hx, hedge⟩
    exact ⟨p, q, ⟨⟨x, hx, hedge⟩, rfl⟩, rfl⟩

/-- The map has the libraries that an edge leads from. -/
theorem get?_directDependencies (trace : List TraceRecord) (p : String) :
    (directDependencies trace).get? p =
      if edgesFrom trace p = [] then none else some (Text.sortedOnce (edgesFrom trace p)) := by
  have hmem : p ∈ ((trace.filterMap TraceRecord.edge?).map Prod.fst).eraseDups ↔
      edgesFrom trace p ≠ [] := by
    simp only [List.mem_eraseDups, edgesFrom, ne_eq, List.map_eq_nil_iff, List.filter_eq_nil_iff,
      List.mem_map, beq_iff_eq]
    push Not
    rfl
  rw [directDependencies, get?_map_of_keys]
  by_cases hnil : edgesFrom trace p = []
  · rw [if_pos hnil, if_neg (fun hp => hmem.1 hp hnil)]
  · rw [if_neg hnil, if_pos (hmem.2 hnil)]
    rfl

/-- A library depends on those that an edge of the trace leads to. -/
theorem mem_directDependencies {trace : List TraceRecord} {p q : String} :
    q ∈ ((directDependencies trace).get? p).getD [] ↔ ∃ x ∈ trace, x.edge? = some (p, q) := by
  rw [get?_directDependencies, ← mem_edgesFrom]
  split
  · next hnil => rw [hnil, Option.getD_none]
  · rw [Option.getD_some, Text.mem_sortedOnce]

/-- The dependencies of a library are in the order of their names, and there are some. -/
theorem sorted_of_directDependencies {trace : List TraceRecord} {p : String} {qs : List String}
    (h : (directDependencies trace).get? p = some qs) : qs ≠ [] ∧ qs.Pairwise (· < ·) := by
  rw [get?_directDependencies] at h
  split at h
  · cases h
  · next hedges =>
    obtain ⟨q, hq⟩ := List.exists_mem_of_ne_nil _ hedges
    rw [← Option.some.inj h]
    exact ⟨List.ne_nil_of_mem (Text.mem_sortedOnce.2 hq), Text.pairwise_lt_sortedOnce _⟩

namespace Resolution

/-! ## What a library needs -/

/-- The library `p` needs the library `q`: the version that is selected for `p` depends on `q`, and
nothing on the way to that dependency excludes it. -/
def Needs (r : Repository) (m : Manifest) (aliases : List String) (known : PomCache)
    (s : Progress) (b : Basis) (p q : String) : Prop :=
  ∃ t ds d, s.selected.get? p = some t ∧ t.DependsOn r known ds ∧ d ∈ ds ∧ d.library = q ∧
    ∀ xs, Applies r m aliases known s b t.way xs → q ∉ xs

/-- No answer leaves a dependency out for another reason than an exclusion. -/
theorem Answers.edge?_eq {top : List String} {taken : List Selection} {v : Visit}
    {x : TraceRecord} (h : Answers top taken v x) :
    x.edge? = if v.dependency.library ∈ v.parent.exclusions then none
      else some (v.parent.library, v.dependency.library) := by
  have hparent : x.parent? = some v.parent.library := by
    rw [TraceRecord.parent?, h.path_eq, Selection.way, List.getLast?_concat]
  have hreason : edgelessReasons.contains x.reason = true ↔ x.reason = "excluded" := by
    cases h with
    | excluded => simp [Visit.record, edgelessReasons]
    | useTop => simp [Visit.record, edgelessReasons]
    | kept =>
      rw [Visit.record, Visit.verdict]
      split <;> simp [edgelessReasons]
    | taken => simp [Visit.record, edgelessReasons]
  rw [TraceRecord.edge?, hparent, h.library_eq]
  simp only [hreason, h.reason_eq_excluded_iff, Option.map_some]

namespace Complete

variable {r : Repository} {m : Manifest} {aliases : List String} {known : PomCache}
  {tops taken : List Selection} {found : List (Selection × List Dependency)} {s : Progress}
  {b : Basis} {p q : String}

/-- What the visit to a dependency of a selected library comes to is an edge unless an exclusion
applies. -/
theorem mem_directDependencies_iff_needs
    (h : Complete r m aliases known tops taken found s b) :
    q ∈ ((directDependencies b.trace).get? p).getD [] ↔ Needs r m aliases known s b p q := by
  rw [mem_directDependencies]
  constructor
  · rintro ⟨x, hx, hedge⟩
    obtain ⟨answers, htrace, hanswers⟩ := h.decided.answers
    rw [htrace] at hx
    rcases List.mem_append.1 hx with hx | hx
    · obtain ⟨t, -, rfl⟩ := List.mem_map.1 hx
      simp [topRecord, TraceRecord.edge?, TraceRecord.parent?] at hedge
    · obtain ⟨v, hv, hanswer⟩ := exists_left_of_forall₂ hanswers hx
      rw [hanswer.edge?_eq] at hedge
      split at hedge
      · cases hedge
      · next hin =>
        obtain ⟨rfl, rfl⟩ := Prod.mk.inj (Option.some.inj hedge)
        obtain ⟨ds, hf, hd⟩ := mem_flatMap_visitsOf.1 hv
        have hparent := h.decided.parents v hv
        refine ⟨v.parent, ds, v.dependency, h.get?_selected.2 ⟨hparent, rfl⟩,
          h.all.follows _ hf, hd, rfl, fun xs happlies hxs => hin ?_⟩
        exact (h.mem_exclusions_iff _ hparent _).2 ⟨xs, happlies, hxs⟩
  · rintro ⟨t, ds, d, hselected, hds, hd, rfl, hfree⟩
    obtain ⟨ht, rfl⟩ := h.get?_selected.1 hselected
    obtain ⟨x, hx, hanswer⟩ := h.exists_record ht hds hd
    refine ⟨x, hx, ?_⟩
    rw [hanswer.edge?_eq, if_neg]
    rintro hout
    obtain ⟨xs, happlies, hxs⟩ := (h.mem_exclusions_iff _ ht _).1 hout
    exact hfree xs happlies hxs

/-- A library that is needed, and one that needs it, is on the classpath. -/
theorem exists_archive_of_needs (h : Complete r m aliases known tops taken found s b)
    (hneeds : Needs r m aliases known s b p q) :
    ∀ l, l = p ∨ l = q → ∃ archive, (archive, l) ∈ b.libraries := by
  obtain ⟨t, ds, d, hselected, hds, hd, rfl, hfree⟩ := hneeds
  obtain ⟨ht, rfl⟩ := h.get?_selected.1 hselected
  rintro l (rfl | rfl)
  · exact ⟨t.archive, h.mem_libraries.2 ⟨t, hselected, rfl⟩⟩
  · obtain ⟨x, hx, hanswer⟩ := h.exists_record ht hds hd
    have htaken : d.library ∈ libraryNames taken := by
      by_contra hnot
      -- what is not taken in was excluded, but no exclusion applies here
      have hreason := h.decided.unmet x hx (by rwa [hanswer.library_eq])
      obtain ⟨xs, happlies, hxs⟩ :=
        (h.mem_exclusions_iff _ ht _).1 (hanswer.reason_eq_excluded_iff.1 hreason)
      exact hfree xs happlies hxs
    obtain ⟨u, hu, hlib⟩ := List.mem_map.1 htaken
    exact ⟨u.archive, h.mem_libraries.2 ⟨u, h.get?_selected.2 ⟨hu, hlib⟩, rfl⟩⟩

end Complete

end Resolution

end BuildFiles
