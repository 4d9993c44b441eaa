import BuildFiles.Proofs.Resolution.Cache

/-!
# When loading a description ends

A description is read on top of that of its parent, and it is kept only when the parent's is there.
So loading ends just if the chain of parents does not come back to itself: then it goes through no
more parents than there are files, and fails only with what a file on the way is damaged by
(`Repository.toldWithin_eq_error`). A chain that comes back is followed without an end, however many
descriptions there may be: `Repository.settles_pomWithin_of_comesBack`.
-/

namespace BuildFiles

namespace Repository

variable {r : Repository} {c p x : Coordinate} {e : Fault} {n : Nat}

/-! ## Damaged descriptions -/

/-- What a description can be damaged by: it is not well-formed, or it cannot be read. -/
inductive IsDamage (r : Repository) (c : Coordinate) : Fault → Prop
  | malformed : IsDamage r c (.resolution (.pomMalformed (c.pom r.path)))
  | tooLong : IsDamage r c (.file .tooLong)
  | isFolder : IsDamage r c (.file .isFolder)
  | notText : IsDamage r c (.file .notText)

theorem isDamage_of_description? (h : r.description? c = .error e) : r.IsDamage c e := by
  rcases Except.bind_eq_error h with hhas | ⟨there, hhas, h⟩
  · obtain ⟨f, hf, rfl⟩ := Except.eq_error_of_mapError hhas
    rw [Tree.holdsAt_eq_error hf]
    exact .tooLong
  · split at h
    · next hthere =>
      subst hthere
      rcases Except.bind_eq_error h with hread | ⟨text, -, hparse⟩
      · obtain ⟨f, hf, rfl⟩ := Except.eq_error_of_mapError hread
        rcases Tree.readText_eq_error (Except.ok_of_mapError hhas) hf with rfl | rfl
        · exact .isFolder
        · exact .notText
      · split at hparse
        · cases hparse
        · cases hparse
          exact .malformed
    · cases h

/-! ## Chains that end -/

theorem toldOver_eq_error {f : Coordinate → Except Fault (Option Pom)} :
    r.toldOver f c = .error e ↔
      r.description? c = .error e ∨ ∃ p, r.IsParent c p ∧ f p = .error e := by
  simp only [isParent_iff]
  unfold toldOver
  rcases hroot : r.description? c with e' | _ | root
  · simp
  · simp
  · rcases hparent : Pom.parent? root with _ | p
    · simp [hparent]
    · cases hp : f p <;> simp [hparent, hp, Except.map]

theorem toldOver_eq_none {f : Coordinate → Except Fault (Option Pom)} :
    r.toldOver f c = .ok none ↔ r.description? c = .ok none := by
  unfold toldOver
  rcases r.description? c with e' | _ | root
  · simp
  · simp
  · rcases hparent : Pom.parent? root with _ | p
    · simp [hparent]
    · cases hp : f p <;> simp [hparent, hp, Except.map]

/-- Loading fails just if a description on the chain is damaged, and with what it is damaged by. -/
theorem toldWithin_eq_error (h : r.EndsWithin n c) : r.toldWithin n c = .error e ↔
    ∃ x, Relation.ReflTransGen r.IsParent c x ∧ r.description? x = .error e := by
  induction n generalizing c with
  | zero => exact h.elim
  | succ n ih =>
    rw [toldWithin, toldOver_eq_error]
    constructor
    · rintro (hc | ⟨p, hp, htold⟩)
      · exact ⟨c, .refl, hc⟩
      · obtain ⟨x, hx, hdamage⟩ := (ih (h p hp)).1 htold
        exact ⟨x, hx.head hp, hdamage⟩
    · rintro ⟨x, hx, hdamage⟩
      rcases hx.cases_head with rfl | ⟨p, hp, hx⟩
      · exact .inl hdamage
      · exact .inr ⟨p, hp, (ih (h p hp)).2 ⟨x, hx, hdamage⟩⟩

/-! ## Chains that come back -/

/-- The chain of parents leads to a library that is among its own parents and theirs. -/
def ComesBack (r : Repository) (c : Coordinate) : Prop :=
  ∃ x, Relation.TransGen r.IsParent c x ∧ Relation.TransGen r.IsParent x x

theorem ends_of_not_comesBack (h : ¬ r.ComesBack c) : r.Ends c :=
  ends_of_acyclic fun x hx hcycle => h ⟨x, hx, hcycle⟩

theorem ComesBack.exists_parent (h : r.ComesBack c) : ∃ p, r.IsParent c p := by
  obtain ⟨x, hx, -⟩ := h
  obtain ⟨p, hp, -⟩ := Relation.TransGen.head'_iff.1 hx
  exact ⟨p, hp⟩

/-- The parent is the first step on the way, so it has the rest of the way before it. -/
theorem ComesBack.parent (h : r.ComesBack c) (hp : r.IsParent c p) : r.ComesBack p := by
  obtain ⟨x, hx, hcycle⟩ := h
  obtain ⟨q, hq, hqx⟩ := Relation.TransGen.head'_iff.1 hx
  obtain rfl := Option.some.inj (hq.symm.trans hp)
  exact ⟨x, Relation.TransGen.trans_right hqx hcycle, hcycle⟩

theorem toldWithin_of_comesBack (h : r.ComesBack c) (n : Nat) :
    r.toldWithin n c = .error .endlessParents := by
  induction n generalizing c with
  | zero => rfl
  | succ n ih =>
    obtain ⟨p, hp⟩ := h.exists_parent
    exact toldOver_eq_error.2 (.inr ⟨p, hp, ih (h.parent hp)⟩)

/-- Nothing true is known of the libraries on the chain, so each of them is read again. -/
theorem settles_pomWithin_of_comesBack (h : r.ComesBack c) (n : Nat) :
    r.Settles (r.pomWithin n c) (.error .endlessParents) := by
  induction n generalizing c with
  | zero => exact .throw _
  | succ n ih =>
    have htold : r.told c = .error .endlessParents := toldWithin_of_comesBack h _
    rw [← htold]
    refine settles_pomWithin_succ ?_
    rw [htold, ← toldWithin_of_comesBack h (n + 1)]
    refine settles_readPom fun p hp => ?_
    rw [toldWithin_of_comesBack (h.parent hp)]
    exact ih (h.parent hp)

/-! ## Both kinds of chains -/

/-- If the chain of parents of a library does not come back to itself, then it goes on for no longer
than there are files, and loading comes to the same result with any more descriptions allowed: to
none just if the library has no file, and to a fault just if a file on the chain is damaged, which
the fault tells. But if the chain comes back, then no number of descriptions is enough. -/
theorem exists_settles_pomWithin (r : Repository) (c : Coordinate) :
    (¬ r.ComesBack c →
      r.EndsWithin (r.tree.files.length + 1) c ∧
      ∃ result, (∀ n, r.tree.files.length < n → r.Settles (r.pomWithin n c) result) ∧
        (result = .ok none ↔ r.description? c = .ok none) ∧
        ∀ e, result = .error e ↔ ∃ x, Relation.ReflTransGen r.IsParent c x ∧
          r.description? x = .error e ∧ r.IsDamage x e) ∧
    (r.ComesBack c → ∀ n, r.Settles (r.pomWithin n c) (.error .endlessParents)) := by
  refine ⟨fun h => ?_, fun h n => settles_pomWithin_of_comesBack h n⟩
  have hends := ends_of_not_comesBack h
  refine ⟨hends, r.told c, fun n hn => settles_pomWithin (hends.mono hn) hends, ?_, fun e => ?_⟩
  · rw [told_eq hends, toldOver_eq_none]
  · rw [told, toldWithin_eq_error hends]
    exact exists_congr fun x => and_congr_right fun _ =>
      ⟨fun hx => ⟨hx, isDamage_of_description? hx⟩, And.left⟩

/-- What describes a library that is its own parent. -/
def ownParentText : String :=
  "<a><parent><groupId>g</groupId><artifactId>a</artifactId><version>1</version></parent></a>"

/-- A repository with a library that is its own parent. -/
def ownParent : Repository where
  tree.files := [(["r", "g", "a", "1", "a-1.pom"], ownParentText.toUTF8)]
  path := .parse "/r"

theorem isParent_ownParent : ownParent.IsParent ⟨"g", "a", "1"⟩ ⟨"g", "a", "1"⟩ := by
  have hplain : (Xml.parse? ownParentText).map plainly =
      some (true, some ⟨"g", "a", "1"⟩, []) := by decide +kernel
  obtain ⟨root, hroot, hplain⟩ := Option.map_eq_some_iff.1 hplain
  have hlocate : ownParent.tree.locate (Coordinate.pom ⟨"g", "a", "1"⟩ ownParent.path) =
      .ok ["r", "g", "a", "1", "a-1.pom"] := by with_unfolding_all rfl
  have hfile : ownParent.rootAt? ["r", "g", "a", "1", "a-1.pom"] = some root :=
    (rootAt?_of_text rfl (by decide +kernel)).trans hroot
  exact isParent_iff.2 ⟨root, description?_eq_some.2 ⟨_, hlocate, hfile⟩, (eq_of_plainly hplain).1⟩

/-- A description on top of that of its parent is loaded, and one on top of itself is not. -/
theorem exists_settles_pomWithin_family :
    (¬ family.ComesBack ⟨"g", "a", "1"⟩ ∧
      ∃ result, ∀ n, 2 < n → family.Settles (family.pomWithin n ⟨"g", "a", "1"⟩) result) ∧
    ownParent.ComesBack ⟨"g", "a", "1"⟩ ∧
      ownParent.Settles (ownParent.pom? ⟨"g", "a", "1"⟩) (.error .endlessParents) := by
  have hfamily : ¬ family.ComesBack ⟨"g", "a", "1"⟩ := fun ⟨x, _, hx⟩ => isAcyclic_family x hx
  have hcomesBack : ownParent.ComesBack ⟨"g", "a", "1"⟩ :=
    ⟨_, .single isParent_ownParent, .single isParent_ownParent⟩
  obtain ⟨-, result, hresult, -⟩ := (exists_settles_pomWithin family ⟨"g", "a", "1"⟩).1 hfamily
  exact ⟨⟨hfamily, result, hresult⟩, hcomesBack,
    (exists_settles_pomWithin ownParent ⟨"g", "a", "1"⟩).2 hcomesBack _⟩

end Repository

end BuildFiles
