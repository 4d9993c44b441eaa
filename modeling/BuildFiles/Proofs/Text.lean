import BuildFiles.Text.Basic
import BuildFiles.Text.Lines
import Mathlib.Data.List.Basic
import Mathlib.Data.List.Sort

/-!
# Texts in order and texts without carriage returns

Sorted texts of which none occurs twice increase (`pairwise_lt_sorted`), so what is sorted with each
text kept once is strictly increasing (`pairwise_lt_sortedOnce`), and it is told by which texts are
in it (`sortedOnce_congr`). It makes no difference whether
items of a list are left out before or after its repetitions (`eraseDups_filter`). Just the texts
without carriage returns have their line endings written as line feeds already
(`plainLines_eq_iff`).
-/

namespace BuildFiles

theorem nodup_eraseDups {α : Type} [BEq α] [LawfulBEq α] : ∀ l : List α, l.eraseDups.Nodup
  | [] => List.nodup_nil
  | a :: l => by
    have hlength : (l.filter fun b => !b == a).length ≤ l.length := List.length_filter_le _ _
    rw [List.eraseDups_cons, List.nodup_cons]
    exact ⟨by simp, nodup_eraseDups _⟩
termination_by l => l.length

theorem mem_of_mem_eraseDups {α : Type} [BEq α] {a : α} :
    ∀ {l : List α}, a ∈ l.eraseDups → a ∈ l
  | b :: l, h => by
    have hlength : (l.filter fun x => !x == b).length ≤ l.length := List.length_filter_le _ _
    rw [List.eraseDups_cons] at h
    rcases List.mem_cons.1 h with rfl | h
    · exact List.mem_cons_self
    · exact List.mem_cons_of_mem b (List.mem_of_mem_filter (mem_of_mem_eraseDups h))
termination_by l => l.length

theorem eraseDups_filter {α : Type} [BEq α] [LawfulBEq α] (keep : α → Bool) :
    ∀ l : List α, (l.filter keep).eraseDups = l.eraseDups.filter keep
  | [] => rfl
  | a :: l => by
    have hlength : (l.filter fun b => !b == a).length ≤ l.length := List.length_filter_le _ _
    have ih := eraseDups_filter keep (l.filter fun b => !b == a)
    rw [List.eraseDups_cons, List.filter_cons, List.filter_cons]
    by_cases ha : keep a = true
    · rw [if_pos ha, if_pos ha, List.eraseDups_cons, ← ih, List.filter_comm]
    · -- what is kept is other than the item anyway
      rw [if_neg ha, if_neg ha, ← ih, List.filter_filter]
      congr 1
      refine List.filter_congr fun b _ => ?_
      by_cases hb : b = a
      · simp [hb, ha]
      · simp [hb]
termination_by l => l.length

theorem eraseDups_of_nodup {α : Type} [BEq α] [LawfulBEq α] {l : List α} (h : l.Nodup) :
    l.eraseDups = l := by
  induction l with
  | nil => rfl
  | cons a l ih =>
    obtain ⟨ha, hl⟩ := List.nodup_cons.1 h
    have hfilter : (l.filter fun b => !b == a) = l := by
      refine List.filter_eq_self.2 fun b hb => ?_
      have hne : b ≠ a := fun hba => ha (hba ▸ hb)
      simpa using hne
    rw [List.eraseDups_cons, hfilter, ih hl]

theorem eraseDups_append_eraseDups {α : Type} [BEq α] [LawfulBEq α] (l l' : List α) :
    (l ++ l'.eraseDups).eraseDups = (l ++ l').eraseDups := by
  rw [List.eraseDups_append, List.eraseDups_append, List.removeAll, List.removeAll,
    eraseDups_filter, eraseDups_filter, eraseDups_of_nodup (nodup_eraseDups l')]

theorem eraseDups_eraseDups_append {α : Type} [BEq α] [LawfulBEq α] (l l' : List α) :
    (l.eraseDups ++ l').eraseDups = (l ++ l').eraseDups := by
  have hrest : l'.removeAll l.eraseDups = l'.removeAll l := by simp [List.removeAll]
  rw [List.eraseDups_append, List.eraseDups_append, eraseDups_of_nodup (nodup_eraseDups l), hrest]

/-- A function that keeps different items apart may be applied before or after repetitions are
left out. -/
theorem eraseDups_map {α β : Type} [BEq α] [BEq β] {f : α → β}
    (hf : ∀ a a', (f a == f a') = (a == a')) :
    ∀ l : List α, (l.map f).eraseDups = l.eraseDups.map f
  | [] => rfl
  | a :: l => by
    have hlength : (l.filter fun b => !b == a).length ≤ l.length := List.length_filter_le _ _
    have hfilter : (l.map f).filter (fun b => !b == f a) = (l.filter fun b => !b == a).map f := by
      rw [List.filter_map]
      simp only [Function.comp_def, hf]
    rw [List.map_cons, List.eraseDups_cons, List.eraseDups_cons, List.map_cons, hfilter,
      eraseDups_map hf]
termination_by l => l.length

namespace Text

theorem pairwise_le_sorted (ss : List String) : (sorted ss).Pairwise (· ≤ ·) := by
  have hle : (sorted ss).Pairwise fun a b => decide (a ≤ b) = true := List.pairwise_mergeSort
    (fun a b c hab hbc => by simpa using String.le_trans (by simpa using hab) (by simpa using hbc))
    (fun a b => by simpa using String.le_total a b) ss
  simpa using hle

theorem pairwise_lt_sorted {ss : List String} (h : ss.Nodup) :
    (sorted ss).Pairwise (· < ·) := by
  refine (pairwise_le_sorted ss).imp₂ (fun a b hab hne => ?_) ((sorted_perm ss).nodup_iff.2 h)
  exact String.not_le.1 fun hba => hne (String.le_antisymm hab hba)

theorem pairwise_lt_sortedOnce (ss : List String) : (sortedOnce ss).Pairwise (· < ·) :=
  pairwise_lt_sorted (nodup_eraseDups ss)

/-- Texts in order are told by which texts they are. -/
theorem sortedOnce_congr {ss ss' : List String} (h : ∀ s, s ∈ ss ↔ s ∈ ss') :
    sortedOnce ss = sortedOnce ss' := by
  refine List.Pairwise.eq_of_mem_iff (r := (· < ·)) (pairwise_lt_sortedOnce ss)
    (pairwise_lt_sortedOnce ss') fun s => ?_
  rw [mem_sortedOnce, mem_sortedOnce, h]

/-! ## Texts without carriage returns -/

theorem plainLinesList_eq {cs : List Char} (h : '\r' ∉ cs) : plainLinesList cs = cs := by
  fun_induction plainLinesList cs with
  | case1 => simp at h
  | case2 => simp at h
  | case3 c cs _ _ ih => rw [ih fun hmem => h (List.mem_cons_of_mem c hmem)]
  | case4 => rfl

theorem not_mem_plainLinesList (cs : List Char) : '\r' ∉ plainLinesList cs := by
  fun_induction plainLinesList cs with
  | case1 cs ih => simp [ih]
  | case2 cs _ ih => simp [ih]
  | case3 c cs _ hne ih => simpa [ih] using fun h : '\r' = c => hne h.symm
  | case4 => simp

theorem plainLines_eq {s : String} (h : '\r' ∉ s.toList) : plainLines s = s := by
  rw [plainLines, plainLinesList_eq h, String.ofList_toList]

/-- Just the texts without carriage returns are as they are with line feeds. -/
theorem plainLines_eq_iff {s : String} : plainLines s = s ↔ '\r' ∉ s.toList := by
  refine ⟨fun h => ?_, plainLines_eq⟩
  rw [← h, plainLines, String.toList_ofList]
  exact not_mem_plainLinesList s.toList

end Text

end BuildFiles
