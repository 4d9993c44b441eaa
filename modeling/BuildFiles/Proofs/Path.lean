import BuildFiles.Path
import Mathlib.Tactic.SplitIfs

/-!
# Paths within paths

A path is within another if its names go on where those of the other end: `isWithin_iff`. The
relation is transitive, so what a path is within, the paths within it are too.
-/

namespace BuildFiles.Path

variable {p q r : Path}

/-- A path is within another one if it goes on from there. -/
theorem isWithin_iff : p.isWithin q = true ↔ p.anchor = q.anchor ∧ q.names <+: p.names := by
  rw [isWithin, Bool.and_eq_true, decide_eq_true_eq, List.isPrefixOf_iff_prefix]

theorem isWithin_refl (p : Path) : p.isWithin p = true :=
  isWithin_iff.2 ⟨rfl, List.prefix_refl p.names⟩

/-- What is within something is within all that this is within. -/
theorem isWithin_trans (h : p.isWithin q = true) (h' : q.isWithin r = true) :
    p.isWithin r = true := by
  rw [isWithin_iff] at h h' ⊢
  exact ⟨h.1.trans h'.1, h'.2.trans h.2⟩

/-- Going on by names puts them behind. -/
theorem join_ofNames (p : Path) (names : List String) :
    p.join (.ofNames names) = ⟨p.anchor, p.names ++ names⟩ := rfl

/-- What is within a path goes on from it. -/
theorem isWithin_iff_join : p.isWithin q = true ↔ ∃ way, p = q.join (.ofNames way) := by
  rw [isWithin_iff]
  constructor
  · rintro ⟨hanchor, way, hway⟩
    refine ⟨way, ?_⟩
    rw [join_ofNames, Path.mk.injEq]
    exact ⟨hanchor, hway.symm⟩
  · rintro ⟨way, rfl⟩
    exact ⟨rfl, List.prefix_append _ _⟩

/-- The path of what has a name in a folder. -/
def entry (folder : Path) (n : String) : Path := folder.join (.ofNames [n])

@[simp] theorem anchor_entry (folder : Path) (n : String) :
    (folder.entry n).anchor = folder.anchor := rfl

@[simp] theorem names_entry (folder : Path) (n : String) :
    (folder.entry n).names = folder.names ++ [n] := rfl

@[simp] theorem name_entry (folder : Path) (n : String) : (folder.entry n).name = n := by
  rw [name, names_entry, List.getLast?_append]
  rfl

@[simp] theorem parent_entry (folder : Path) (n : String) : (folder.entry n).parent = folder := by
  rw [parent, names_entry, List.dropLast_concat]
  rfl

theorem entry_isWithin (folder : Path) (n : String) : (folder.entry n).isWithin folder = true :=
  isWithin_iff.2 ⟨rfl, List.prefix_append _ _⟩

/-- A path through some name is what has that name in its parent. -/
theorem entry_parent (h : p.names ≠ []) : p.parent.entry p.name = p := by
  obtain ⟨anchor, names⟩ := p
  change Path.mk anchor (names.dropLast ++ [names.getLast?.getD ""]) = _
  rw [List.getLast?_eq_some_getLast h, Option.getD_some, List.dropLast_concat_getLast]

/-! ## Names of paths -/

/-- A text that can be a name on a path. -/
structure IsSegment (n : String) : Prop where
  ne_empty : n ≠ ""
  no_slash : '/' ∉ n.toList

instance (n : String) : Decidable (IsSegment n) :=
  decidable_of_iff (n ≠ "" ∧ '/' ∉ n.toList) ⟨fun ⟨h₁, h₂⟩ => ⟨h₁, h₂⟩,
    fun h => ⟨h.ne_empty, h.no_slash⟩⟩

/-- What the path goes through can be told from its text. So it is with every path that is read. -/
def IsLegible (p : Path) : Prop := ∀ n ∈ p.names, IsSegment n

/-- No part has the mark in it that the text was split at; by induction on the text, where a mark
starts a new part and any other character goes to the first one. -/
theorem not_mem_of_mem_splitOn {sep : Char} {cs part : List Char} (h : part ∈ cs.splitOn sep) :
    sep ∉ part := by
  induction cs generalizing part with
  | nil =>
    rw [List.splitOn_nil, List.mem_singleton] at h
    simp [h]
  | cons c cs ih =>
    rw [List.splitOn_cons_eq_if_modifyHead] at h
    split_ifs at h with hc
    · rcases List.mem_cons.1 h with rfl | h
      · simp
      · exact ih h
    · rcases hparts : cs.splitOn sep with _ | ⟨first, rest⟩
      · exact absurd hparts (List.splitOn_ne_nil _ _)
      · rw [hparts] at h ih
        rcases List.mem_cons.1 h with rfl | h
        · rintro (_ | ⟨_, hmem⟩)
          · simp at hc
          · exact ih List.mem_cons_self hmem
        · exact ih (List.mem_cons_of_mem _ h)

/-- The parts of a text between strokes can each be a name. -/
theorem isSegment_of_mem_segments {s n : String} (h : n ∈ Text.segments '/' s) (hn : n ≠ "") :
    IsSegment n := by
  obtain ⟨cs, hcs, rfl⟩ := List.mem_map.1 h
  refine ⟨hn, ?_⟩
  rw [String.toList_ofList]
  exact not_mem_of_mem_splitOn hcs

/-- A path that was written as a text can be written as one again. -/
theorem isLegible_parse (s : String) : (parse s).IsLegible := by
  intro n hn
  obtain ⟨hmem, hne⟩ := List.mem_filter.1 hn
  rw [Bool.and_eq_true, bne_iff_ne] at hne
  exact isSegment_of_mem_segments hmem hne.1

/-! ## Resolved paths -/

/-- The path is what `settled` gives: it starts at the root and does not go back. -/
def IsResolved (p : Path) : Prop := p.anchor = .root ∧ ".." ∉ p.names

/-- No step back is left when a path is settled, if there was none in front of it. -/
theorem not_mem_settle {before names : List String} (h : ".." ∉ before) :
    ".." ∉ settle before names := by
  induction names generalizing before with
  | nil => simpa [settle] using h
  | cons n names ih =>
    rw [settle]
    split
    · exact ih fun hmem => h (List.mem_of_mem_tail hmem)
    · next hn =>
      refine ih fun hmem => ?_
      rcases List.mem_cons.1 hmem with heq | hmem
      · exact hn heq.symm
      · exact h hmem

/-- A name at the end stays at the end. -/
theorem settle_append (before names : List String) {n : String} (hn : n ≠ "..") :
    settle before (names ++ [n]) = settle before names ++ [n] := by
  induction names generalizing before with
  | nil => simp [settle, hn]
  | cons m names ih =>
    rw [List.cons_append, settle, settle]
    split
    · exact ih _
    · exact ih _

/-- Without steps back nothing is taken away. -/
theorem settle_of_not_mem (before : List String) {names : List String} (h : ".." ∉ names) :
    settle before names = before.reverse ++ names := by
  induction names generalizing before with
  | nil => exact (List.append_nil _).symm
  | cons n names ih =>
    obtain ⟨hn, hnames⟩ := not_or.1 (mt List.mem_cons.2 h)
    rw [settle, if_neg (Ne.symm hn), ih _ hnames, List.reverse_cons, List.append_assoc]
    rfl

/-- What is resolved stays as it is. -/
theorem settled_of_isResolved {base : Path} (h : (base.join p).IsResolved) :
    base.settled p = base.join p := by
  rw [settled, settle_of_not_mem [] h.2, ← h.1]
  rfl

/-- What a resolved path is within is resolved. -/
theorem IsResolved.of_isWithin (hp : p.IsResolved) (h : p.isWithin q = true) : q.IsResolved := by
  obtain ⟨hanchor, hle⟩ := isWithin_iff.1 h
  exact ⟨hanchor.symm.trans hp.1, fun hup => hp.2 (hle.subset hup)⟩

/-- So a settled path is resolved. -/
theorem isResolved_settled (base p : Path) : (base.settled p).IsResolved :=
  ⟨rfl, not_mem_settle List.not_mem_nil⟩

end BuildFiles.Path
