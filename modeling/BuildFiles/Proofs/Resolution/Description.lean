import BuildFiles.Resolution.Selection
import BuildFiles.Proofs.Computation

/-!
# Which description a library has

What a repository says about a library, apart from how it is read. `Described` is the description of
a coordinate where some descriptions are known already: a known one stays, and any other is read
from the tree on top of that of its parent. It is unique (`Described.unique`), and every description
that is read or kept is such a one (`Repository.described_of_pomWithin`). `DependsOn` are the
dependencies of a selected library by its description.
-/

namespace BuildFiles

namespace Repository

/-- The description of a coordinate, none if there is none. -/
inductive Described (r : Repository) (known : PomCache) : Coordinate → Option Pom → Prop
  /-- what is known stays -/
  | known {c : Coordinate} {pom : Option Pom} (hknown : known.get? c = some pom) :
    Described r known c pom
  /-- there is no file -/
  | missing {c : Coordinate} (hknown : known.get? c = none)
    (hfile : r.description? c = .ok none) : Described r known c none
  /-- the file names no parent -/
  | alone {c : Coordinate} {root : Xml.Element} (hknown : known.get? c = none)
    (hfile : r.description? c = .ok (some root)) (hparent : Pom.parent? root = none) :
    Described r known c (some (Pom.ofElement c {} root))
  /-- the file names a parent -/
  | child {c parent : Coordinate} {root : Xml.Element} {inherited : Option Pom}
    (hknown : known.get? c = none) (hfile : r.description? c = .ok (some root))
    (hparent : Pom.parent? root = some parent)
    (hinherited : Described r known parent inherited) :
    Described r known c (some (Pom.ofElement c (inherited.getD {}) root))

variable {r : Repository} {known : PomCache}

/-- A coordinate has one description: if it is known, what is known of it; and if not, what its file
says with what is inherited from its parent, by induction on the chain of parents. -/
theorem Described.unique {c : Coordinate} {pom pom' : Option Pom} (h : r.Described known c pom)
    (h' : r.Described known c pom') : pom = pom' := by
  induction h generalizing pom' with
  | known hk =>
    cases h' with
    | known hk' => exact Option.some.inj (hk.symm.trans hk')
    | missing hk' => rw [hk] at hk'; cases hk'
    | alone hk' => rw [hk] at hk'; cases hk'
    | child hk' => rw [hk] at hk'; cases hk'
  | missing hk hf =>
    cases h' with
    | known hk' => rw [hk] at hk'; cases hk'
    | missing => rfl
    | alone _ hf' => rw [hf] at hf'; cases hf'
    | child _ hf' => rw [hf] at hf'; cases hf'
  | alone hk hf hp =>
    cases h' with
    | known hk' => rw [hk] at hk'; cases hk'
    | missing _ hf' => rw [hf] at hf'; cases hf'
    | alone _ hf' =>
      rw [hf] at hf'
      cases hf'
      rfl
    | child _ hf' hp' =>
      rw [hf] at hf'
      cases hf'
      rw [hp] at hp'
      cases hp'
  | child hk hf hp _ ih =>
    cases h' with
    | known hk' => rw [hk] at hk'; cases hk'
    | missing _ hf' => rw [hf] at hf'; cases hf'
    | alone _ hf' hp' =>
      rw [hf] at hf'
      cases hf'
      rw [hp] at hp'
      cases hp'
    | child _ hf' hp' hi =>
      rw [hf] at hf'
      cases hf'
      rw [hp] at hp'
      cases hp'
      rw [ih hi]

/-- What is known later holds all that is known at first, and true descriptions besides. -/
structure Extends (r : Repository) (known later : PomCache) : Prop where
  keeps : ∀ {c pom}, known.get? c = some pom → later.get? c = some pom
  described : ∀ {c pom}, later.get? c = some pom → r.Described known c pom

theorem Extends.refl (r : Repository) (known : PomCache) : r.Extends known known :=
  ⟨id, .known⟩

/-- A description that is read in turn may be kept. -/
theorem Extends.insert {later : PomCache} (h : r.Extends known later) {c : Coordinate}
    {pom : Option Pom} (hc : known.get? c = none) (hpom : r.Described known c pom) :
    r.Extends known (later.insert c pom) := by
  refine ⟨fun {c'} pom' hknown => ?_, fun {c'} pom' hlater => ?_⟩
  · have hne : c ≠ c' := by
      rintro rfl
      rw [hc] at hknown
      cases hknown
    rw [Entries.get?_insert, if_neg (by simpa using hne)]
    exact h.keeps hknown
  · rw [Entries.get?_insert] at hlater
    by_cases hcc : c = c'
    · subst hcc
      rw [if_pos (by simp)] at hlater
      obtain rfl := Option.some.inj hlater
      exact hpom
    · rw [if_neg (by simpa using hcc)] at hlater
      exact h.described hlater

/-- A file that is read on top of the description of its parent gives the description. -/
theorem described_of_readPom {parentPom : Coordinate → Resolving (Option Pom)} {c : Coordinate}
    {pom : Option Pom} {before after : PomCache} (hc : known.get? c = none)
    (hbefore : r.Extends known before)
    (hparents : ∀ {parent pom after}, (parentPom parent).Yields before pom after →
      r.Described known parent pom ∧ r.Extends known after)
    (h : (r.readPom parentPom c).Yields before pom after) :
    r.Described known c pom ∧ r.Extends known after := by
  obtain ⟨found, hfound, hread⟩ := h.lift_bind
  have hfile := hfound.of
  split at hread
  · obtain ⟨rfl, rfl⟩ := hread.pure
    exact ⟨.missing hc hfile, hbefore⟩
  · split at hread
    · next hparent =>
      obtain ⟨rfl, rfl⟩ := hread.pure
      exact ⟨.alone hc hfile hparent, hbefore⟩
    · next hparent =>
      obtain ⟨inherited, mid', hinherited, hpure⟩ := hread.bind
      obtain ⟨rfl, rfl⟩ := hpure.pure
      obtain ⟨hdescribed, hextends⟩ := hparents hinherited
      exact ⟨.child hc hfile hparent hdescribed, hextends⟩

/-- What is read is the description, and what is known then extends what was known at first. The
induction is on the length of the chain of parents. -/
theorem described_of_pomWithin {fuel : Nat} {c : Coordinate} {pom : Option Pom}
    {before after : PomCache} (hbefore : r.Extends known before)
    (h : (r.pomWithin fuel c).Yields before pom after) :
    r.Described known c pom ∧ r.Extends known after := by
  induction fuel generalizing c pom before after with
  | zero => exact h.throw.elim
  | succ fuel ih =>
    obtain ⟨cache, mid, hget, hmatch⟩ := h.bind
    obtain ⟨rfl, rfl⟩ := hget.get
    split at hmatch
    · next hknown =>
      obtain ⟨rfl, rfl⟩ := hmatch.pure
      exact ⟨hbefore.described hknown, hbefore⟩
    · next hnone =>
      -- what was known at first is never forgotten, so this was not
      have hc : known.get? c = none := by
        rcases hk : known.get? c with _ | p
        · rfl
        · rw [hbefore.keeps hk] at hnone
          cases hnone
      obtain ⟨read, mid', hread, hkeep⟩ := hmatch.bind
      obtain ⟨_, mid'', hmodify, hpure⟩ := hkeep.bind
      obtain ⟨rfl, rfl⟩ := hpure.pure
      obtain rfl := hmodify.modify
      obtain ⟨hdescribed, hextends⟩ := described_of_readPom hc hbefore (ih hbefore) hread
      exact ⟨hdescribed, hextends.insert hc hdescribed⟩

/-! ## Dependencies -/

/-- The dependencies that count of a coordinate, by its description. -/
def Follows (r : Repository) (known : PomCache) (c : Coordinate) (ds : List Dependency) : Prop :=
  ∃ pom, r.Described known c pom ∧
    match pom with
    | some p => (p.followed c).Yields ds
    | none => ds = []

theorem follows_of_dependenciesOf {c : Coordinate} {ds : List Dependency}
    {before after : PomCache} (hbefore : r.Extends known before)
    (h : (r.dependenciesOf c).Yields before ds after) :
    r.Follows known c ds ∧ r.Extends known after := by
  obtain ⟨pom, mid, hpom, hrest⟩ := h.bind
  obtain ⟨hdescribed, hextends⟩ := described_of_pomWithin hbefore hpom
  split at hrest
  · next p =>
    obtain ⟨hfollowed, rfl⟩ := hrest.lift
    exact ⟨⟨some p, hdescribed, hfollowed⟩, hextends⟩
  · obtain ⟨_, -, hpure⟩ := hrest.lift_bind
    obtain ⟨rfl, rfl⟩ := hpure.pure
    exact ⟨⟨none, hdescribed, rfl⟩, hextends⟩

end Repository

namespace Pom

/-- What a mention comes to, apart from what is said about it. -/
def outcome (p : Pom) (c : Coordinate) (m : Mention) : Except Fault (Option Dependency) :=
  if isPlain m then (p.dependency c m).map some else .ok none

theorem outcome_of_follow {p : Pom} {c : Coordinate} {m : Mention} {d : Option Dependency}
    (h : (p.follow c m).Yields d) : p.outcome c m = .ok d := by
  rw [follow] at h
  rw [outcome]
  split at h
  · next hplain =>
    obtain ⟨d', hd', hpure⟩ := h.bind
    obtain rfl := hpure.pure
    rw [if_pos hplain, hd'.of]
    rfl
  · next hplain =>
    obtain ⟨_, -, hpure⟩ := h.bind
    obtain rfl := hpure.pure
    rw [if_neg hplain]

/-- A description has one list of dependencies that count. -/
theorem followed_unique {p : Pom} {c : Coordinate} {ds ds' : List Dependency}
    (h : (p.followed c).Yields ds) (h' : (p.followed c).Yields ds') : ds = ds' := by
  obtain ⟨found, hfound, hpure⟩ := h.bind
  obtain ⟨found', hfound', hpure'⟩ := h'.bind
  obtain rfl := hpure.pure
  obtain rfl := hpure'.pure
  have hunique : Relator.RightUnique fun m d => p.outcome c m = .ok d :=
    fun _ _ _ hd hd' => Except.ok.inj (hd.symm.trans hd')
  rw [hunique.forall₂ (hfound.mapM.imp fun _ _ => outcome_of_follow)
    (hfound'.mapM.imp fun _ _ => outcome_of_follow)]

end Pom

namespace Repository

variable {r : Repository} {known : PomCache}

theorem Follows.unique {c : Coordinate} {ds ds' : List Dependency} (h : r.Follows known c ds)
    (h' : r.Follows known c ds') : ds = ds' := by
  obtain ⟨pom, hpom, hds⟩ := h
  obtain ⟨pom', hpom', hds'⟩ := h'
  obtain rfl := hpom.unique hpom'
  cases pom with
  | none => exact hds.trans hds'.symm
  | some p => exact Pom.followed_unique hds hds'

end Repository

/-- The dependencies that count of a library that is taken in with a version. -/
def Selection.DependsOn (r : Repository) (known : PomCache) (s : Selection)
    (ds : List Dependency) : Prop :=
  ∃ version, s.version = some version ∧ r.Follows known (.ofLibrary s.library version) ds

theorem Selection.DependsOn.unique {r : Repository} {known : PomCache} {s : Selection}
    {ds ds' : List Dependency} (h : s.DependsOn r known ds) (h' : s.DependsOn r known ds') :
    ds = ds' := by
  obtain ⟨v, hv, hds⟩ := h
  obtain ⟨v', hv', hds'⟩ := h'
  obtain rfl := Option.some.inj (hv.symm.trans hv')
  exact hds.unique hds'

end BuildFiles
