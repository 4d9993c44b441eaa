import BuildFiles.Session
import Mathlib.Data.List.Forall2

/-!
# What computations yield

The computations of the project may fail, say what they do, and keep what they know. A claim about a
result is about what a computation `Yields`: its value when it does not fail, whatever was said
before. That it comes to a value in any case is what it `Returns`. The lemmas here take a
computation apart at its first step (`Logged.Yields.bind`, `Resolving.Yields.bind`) and carry an
invariant through the loops (`Logged.Yields.foldlM`, `Resolving.Yields.mapM`), so that the proofs
about resolution do not look into the monads.
-/

namespace BuildFiles

variable {α β σ : Type}

/-! ## Lists that correspond item by item -/

/-- An item on the left corresponds to one on the right. -/
theorem exists_right_of_forall₂ {R : α → β → Prop} {l : List α} {bs : List β}
    (h : List.Forall₂ R l bs) {a : α} (ha : a ∈ l) : ∃ b ∈ bs, R a b := by
  induction h with
  | nil => cases ha
  | cons hr _ ih =>
    rcases List.mem_cons.1 ha with rfl | ha
    · exact ⟨_, List.mem_cons_self, hr⟩
    · obtain ⟨b, hb, hab⟩ := ih ha
      exact ⟨b, List.mem_cons_of_mem _ hb, hab⟩

/-- An item on the right is one that something on the left corresponds to. -/
theorem exists_left_of_forall₂ {R : α → β → Prop} {l : List α} {bs : List β}
    (h : List.Forall₂ R l bs) {b : β} (hb : b ∈ bs) : ∃ a ∈ l, R a b :=
  exists_right_of_forall₂ h.flip hb

/-- An item on the right with the one that it corresponds to. -/
theorem exists_zip_of_forall₂ {R : α → β → Prop} {l : List α} {bs : List β}
    (h : List.Forall₂ R l bs) {b : β} (hb : b ∈ bs) : ∃ a, (a, b) ∈ l.zip bs ∧ R a b := by
  induction h with
  | nil => cases hb
  | cons hr _ ih =>
    rw [List.zip_cons_cons]
    rcases List.mem_cons.1 hb with rfl | hb
    · exact ⟨_, List.mem_cons_self, hr⟩
    · obtain ⟨a, ha, hab⟩ := ih hb
      exact ⟨a, List.mem_cons_of_mem _ ha, hab⟩

/-- Computations for the items of a list are the same if each is. -/
theorem mapM_congr {α β : Type} {m : Type → Type} [Monad m] [LawfulMonad m] {f g : α → m β}
    {l : List α} (h : ∀ a ∈ l, f a = g a) : l.mapM f = l.mapM g := by
  induction l with
  | nil => rfl
  | cons a l ih =>
    obtain ⟨ha, hl⟩ := List.forall_mem_cons.1 h
    rw [List.mapM_cons, List.mapM_cons, ha, ih hl]

/-! ## Faults or values -/

/-- A value that is made in two steps. -/
theorem Except.bind_eq_ok {ε : Type} {x : Except ε α} {f : α → Except ε β} {b : β}
    (h : x >>= f = .ok b) : ∃ a, x = .ok a ∧ f a = .ok b := by
  cases x with
  | error e => cases h
  | ok a => exact ⟨a, rfl, h⟩

/-- A computation in two steps fails in the first one, or in the second one after the first has
given a value. -/
theorem Except.bind_eq_error {ε : Type} {x : Except ε α} {f : α → Except ε β} {e : ε}
    (h : x >>= f = .error e) : x = .error e ∨ ∃ a, x = .ok a ∧ f a = .error e := by
  cases x with
  | error e' => exact .inl (congrArg Except.error (Except.error.inj h))
  | ok a => exact .inr ⟨a, rfl, h⟩

/-- After a step that gives a value the rest goes on from that value. -/
theorem Except.bind_of_ok {ε : Type} {x : Except ε α} {f : α → Except ε β} {a : α}
    (h : x = .ok a) : x >>= f = f a := by
  rw [h]
  rfl

/-- What is mapped to a value is the value of something. -/
theorem Except.map_eq_ok {ε : Type} {f : α → β} {x : Except ε α} {b : β}
    (h : x.map f = .ok b) : ∃ a, x = .ok a ∧ b = f a := by
  cases x with
  | error e => cases h
  | ok a => exact ⟨a, rfl, (Except.ok.inj h).symm⟩

/-- Telling a fault in other words does not touch a value. -/
theorem Except.ok_of_mapError {ε ε' : Type} {f : ε → ε'} {x : Except ε α} {a : α}
    (h : x.mapError f = .ok a) : x = .ok a := by
  cases x with
  | error e => cases h
  | ok b => exact congrArg Except.ok (Except.ok.inj h)

/-- A fault that is told in other words is the fault of the computation. -/
theorem Except.eq_error_of_mapError {α ε ε' : Type} {f : ε → ε'} {x : Except ε α} {e : ε'}
    (h : x.mapError f = .error e) : ∃ e', x = .error e' ∧ e = f e' := by
  cases x with
  | error e' => exact ⟨e', rfl, (Except.error.inj h).symm⟩
  | ok a => cases h

/-- What is left of a computation that may find nothing, once its fault is forgotten. -/
theorem Except.toOption_join_eq_some {ε : Type} {x : Except ε (Option α)} {a : α} :
    x.toOption.join = some a ↔ x = .ok (some a) := by
  rcases x with e | _ | b <;> simp [Except.toOption]

/-- What is made of each item of a list. -/
theorem Except.forall₂_of_mapM {ε : Type} {f : α → Except ε β} {l : List α} {bs : List β}
    (h : l.mapM f = .ok bs) : List.Forall₂ (fun a b => f a = .ok b) l bs := by
  induction l generalizing bs with
  | nil =>
    rw [List.mapM_nil] at h
    cases h
    exact .nil
  | cons a l ih =>
    rw [List.mapM_cons] at h
    obtain ⟨b, hb, h⟩ := Except.bind_eq_ok h
    obtain ⟨bs', hbs, h⟩ := Except.bind_eq_ok h
    cases h
    exact .cons hb (ih hbs)

/-- If each item gives what corresponds to it, then so does the list; the other way of
`forall₂_of_mapM`. -/
theorem Except.mapM_of_forall₂ {ε : Type} {f : α → Except ε β} {l : List α} {bs : List β}
    (h : List.Forall₂ (fun a b => f a = .ok b) l bs) : l.mapM f = .ok bs := by
  induction h with
  | nil => rfl
  | cons hb _ ih =>
    rw [List.mapM_cons, hb, ih]
    rfl

/-- What can be made of every item of a list can be made of all of them. -/
theorem Except.exists_mapM_of_mem {ε : Type} {f : α → Except ε β} {R : α → β → Prop} {l : List α}
    (h : ∀ a ∈ l, ∃ b, f a = .ok b ∧ R a b) : ∃ bs, l.mapM f = .ok bs ∧ List.Forall₂ R l bs := by
  induction l with
  | nil => exact ⟨[], rfl, .nil⟩
  | cons a l ih =>
    obtain ⟨⟨b, hb, hab⟩, hl⟩ := List.forall_mem_cons.1 h
    obtain ⟨bs, hbs, hall⟩ := ih hl
    refine ⟨b :: bs, ?_, .cons hab hall⟩
    rw [List.mapM_cons, hb, hbs]
    rfl

/-- A step that never fails does not fail over a list either, and what holds of each value holds of
all of them. -/
theorem Except.exists_mapM {ε : Type} {f : α → Except ε β} {P : β → Prop}
    (h : ∀ a, ∃ b, f a = .ok b ∧ P b) (l : List α) :
    ∃ bs, l.mapM f = .ok bs ∧ ∀ b ∈ bs, P b := by
  obtain ⟨bs, hbs, hall⟩ := exists_mapM_of_mem (l := l) (R := fun _ b => P b) fun a _ => h a
  refine ⟨bs, hbs, fun b hb => ?_⟩
  obtain ⟨a, -, hP⟩ := exists_left_of_forall₂ hall hb
  exact hP

/-- A value of the kind `Q`, or a fault of the kind `P`. -/
def Except.Ends (P : Fault → Prop) (Q : α → Prop) : Except Fault α → Prop
  | .ok a => Q a
  | .error e => P e

section Ends

variable {P P' : Fault → Prop} {Q Q' : α → Prop} {R : β → Prop}

/-- Two steps end as the second one does, from a value that the first one really gives. -/
theorem Except.Ends.bind {x : Except Fault α} {f : α → Except Fault β} (h : Except.Ends P Q x)
    (hf : ∀ a, x = .ok a → Q a → Except.Ends P R (f a)) : Except.Ends P R (x >>= f) := by
  cases x with
  | error e => exact h
  | ok a => exact hf a rfl h

/-- A value can be turned into another one; the faults are as they were. -/
theorem Except.Ends.map {x : Except Fault α} {g : α → β} (h : Except.Ends P Q x)
    (hg : ∀ a, Q a → R (g a)) : Except.Ends P R (x.map g) := by
  cases x with
  | error e => exact h
  | ok a => exact hg a h

/-- What is said of the faults and of the values can be weakened. -/
theorem Except.Ends.mono {x : Except Fault α} (h : Except.Ends P Q x) (hP : ∀ e, P e → P' e)
    (hQ : ∀ a, Q a → Q' a) : Except.Ends P' Q' x := by
  cases x with
  | error e => exact hP e h
  | ok a => exact hQ a h

/-- What holds of the value that a computation ends with, holds of the one that it comes to. -/
theorem Except.Ends.and_eq {x : Except Fault α} (h : Except.Ends P Q x) :
    Except.Ends P (fun a => x = .ok a ∧ Q a) x := by
  cases x with
  | error e => exact h
  | ok a => exact ⟨rfl, h⟩

/-- The first fault that a list comes to is one of an item. -/
theorem Except.Ends.mapM {f : α → Except Fault β} {l : List α}
    (h : ∀ a ∈ l, Except.Ends P R (f a)) :
    Except.Ends P (fun bs : List β => ∀ b ∈ bs, R b) (l.mapM f) := by
  induction l with
  | nil => exact fun _ h => nomatch h
  | cons a l ih =>
    obtain ⟨ha, hl⟩ := List.forall_mem_cons.1 h
    rw [List.mapM_cons]
    exact ha.bind fun b _ hb => (ih hl).bind fun bs _ hbs => List.forall_mem_cons.2 ⟨hb, hbs⟩

/-- Unless an item comes to a fault, the values correspond to the items. -/
theorem Except.Ends.mapM_forall₂ {S : α → β → Prop} {f : α → Except Fault β} {l : List α}
    (h : ∀ a ∈ l, Except.Ends P (S a) (f a)) : Except.Ends P (List.Forall₂ S l) (l.mapM f) := by
  induction l with
  | nil => exact .nil
  | cons a l ih =>
    obtain ⟨ha, hl⟩ := List.forall_mem_cons.1 h
    rw [List.mapM_cons]
    exact ha.bind fun b _ hb => (ih hl).bind fun bs _ hbs => .cons hb hbs

/-- If there is a fault, then one of the kind `P`. This is said of the fault, so that it can be
unfolded without the computation. -/
def Except.FailsBy (P : Fault → Prop) (x : Except Fault α) : Prop := ∀ e, x = .error e → P e

theorem Except.FailsBy.ok (a : α) : Except.FailsBy P (.ok a) := by
  rintro _ ⟨⟩

theorem Except.FailsBy.error {e : Fault} (he : P e) :
    Except.FailsBy P (.error e : Except Fault α) := by
  rintro _ ⟨⟩
  exact he

/-- To fail by some faults only is to end in them, or in any value whatever. -/
theorem Except.failsBy_iff {x : Except Fault α} :
    Except.FailsBy P x ↔ Except.Ends P (fun _ => True) x := by
  cases x with
  | ok a => exact ⟨fun _ => trivial, fun _ => .ok a⟩
  | error e => exact ⟨fun h => h e rfl, .error⟩

/-- Steps that fail by some faults only do so together. -/
theorem Except.FailsBy.bind {x : Except Fault α} {f : α → Except Fault β}
    (h : Except.FailsBy P x) (hf : ∀ a, Except.FailsBy P (f a)) : Except.FailsBy P (x >>= f) := by
  intro e he
  rcases Except.bind_eq_error he with he | ⟨a, -, he⟩
  · exact h e he
  · exact hf a e he

theorem Except.FailsBy.map {x : Except Fault α} (h : Except.FailsBy P x) (g : α → β) :
    Except.FailsBy P (x.map g) := by
  cases x with
  | ok a => exact .ok _
  | error e => exact .error (h e rfl)

/-- Steps that are taken for each item of a list fail only by the faults by which the single steps
do. -/
theorem Except.FailsBy.mapM {f : α → Except Fault β} {l : List α}
    (h : ∀ a ∈ l, Except.FailsBy P (f a)) : Except.FailsBy P (l.mapM f) :=
  Except.failsBy_iff.2 <| (Except.Ends.mapM fun a ha => Except.failsBy_iff.1 (h a ha)).mono
    (fun _ => id) fun _ _ => trivial

end Ends

/-! ## Computations that say what they do -/

namespace Logged

/-- The computation comes to a value, whatever was said before. -/
def Yields (x : Logged α) (a : α) : Prop :=
  ∃ said said', x.run.run said = (.ok a, said')

/-- What holds of the value that a computation comes to when nothing was said before. -/
def comesTo (x : Logged α) (holds : α → Bool) : Bool :=
  match (x.run.run []).1 with
  | .ok a => holds a
  | .error _ => false

/-- A computation whose value passes a test gives a value that does; this is how the runs of
examples are checked. -/
theorem exists_yields (x : Logged α) (holds : α → Bool) (h : x.comesTo holds = true) :
    ∃ a, x.Yields a ∧ holds a = true := by
  rw [comesTo] at h
  rcases hx : x.run.run [] with ⟨e | a, said⟩
  · rw [hx] at h
    cases h
  · rw [hx] at h
    exact ⟨a, ⟨[], said, hx⟩, h⟩

theorem Yields.pure {a b : α} (h : Yields (pure a) b) : b = a := by
  obtain ⟨said, said', h⟩ := h
  cases h
  rfl

/-- Nothing comes of a fault. -/
theorem Yields.throw {e : Fault} {a : α} (h : Yields (throw e) a) : False := by
  obtain ⟨said, said', h⟩ := h
  cases h

/-- A computation that says nothing gives the value that it has. -/
theorem Yields.of {x : Except Fault α} {a : α} (h : (Logged.of x).Yields a) : x = .ok a := by
  obtain ⟨said, said', h⟩ := h
  exact congrArg Prod.fst h

/-- Inversion: what two steps give comes of a value of the first. -/
theorem Yields.bind {x : Logged α} {f : α → Logged β} {b : β} (h : (x >>= f).Yields b) :
    ∃ a, x.Yields a ∧ (f a).Yields b := by
  obtain ⟨said, said', h⟩ := h
  rw [ExceptT.run_bind, StateT.run_bind] at h
  rcases hx : x.run.run said with ⟨e | a, mid⟩
  · rw [hx] at h
    cases h
  · rw [hx] at h
    exact ⟨a, ⟨said, mid, hx⟩, mid, said', h⟩

/-- Inversion: what comes of a list comes of its items, one by one. -/
theorem Yields.mapM {f : α → Logged β} {l : List α} {bs : List β} (h : (l.mapM f).Yields bs) :
    List.Forall₂ (fun a b => (f a).Yields b) l bs := by
  induction l generalizing bs with
  | nil =>
    rw [List.mapM_nil] at h
    obtain rfl := h.pure
    exact .nil
  | cons a l ih =>
    rw [List.mapM_cons] at h
    obtain ⟨b, hb, hrest⟩ := h.bind
    obtain ⟨bs', hbs, hpure⟩ := hrest.bind
    obtain rfl := hpure.pure
    exact .cons hb (ih hbs)

/-- A loop keeps what each of its rounds keeps. -/
theorem Yields.foldlM {P : List α → σ → Prop} {f : σ → α → Logged σ} {l : List α} (done : List α)
    (step : ∀ done a s s', a ∈ l → P done s → (f s a).Yields s' → P (done ++ [a]) s')
    {s s' : σ} (hs : P done s) (h : (l.foldlM f s).Yields s') : P (done ++ l) s' := by
  induction l generalizing done s with
  | nil =>
    rw [List.foldlM_nil] at h
    rw [h.pure, List.append_nil]
    exact hs
  | cons a l ih =>
    rw [List.foldlM_cons] at h
    obtain ⟨mid, hmid, hrest⟩ := h.bind
    have hl := ih (done ++ [a]) (fun done b s s' hb => step done b s s' (List.mem_cons_of_mem a hb))
      (step done a s mid List.mem_cons_self hs hmid) hrest
    rwa [List.append_assoc, List.singleton_append] at hl

/-- Whatever was said before, the computation comes to the value. -/
def Returns (x : Logged α) (a : α) : Prop := ∀ said, ∃ said', x.run.run said = (.ok a, said')

/-- What is given whatever was said before is given. -/
theorem Returns.yields {x : Logged α} {a : α} (h : x.Returns a) : x.Yields a := ⟨[], h []⟩

theorem Returns.pure (a : α) : Returns (pure a) a := fun said => ⟨said, rfl⟩

/-- A value that is there already is given, and nothing is said. -/
theorem Returns.of {x : Except Fault α} {a : α} (h : x = .ok a) : (Logged.of x).Returns a := by
  subst h
  exact fun said => ⟨said, rfl⟩

theorem Returns.say (r : Record) : (Logged.say r).Returns () := fun said => ⟨said ++ [r], rfl⟩

/-- Two steps give what the second one gives for the value of the first. -/
theorem Returns.bind {x : Logged α} {f : α → Logged β} {a : α} {b : β} (hx : x.Returns a)
    (hf : (f a).Returns b) : (x >>= f).Returns b := by
  intro said
  obtain ⟨mid, hmid⟩ := hx said
  obtain ⟨said', hsaid'⟩ := hf mid
  refine ⟨said', ?_⟩
  rw [ExceptT.run_bind, StateT.run_bind, hmid]
  exact hsaid'

/-- Saying several things gives nothing, and always succeeds. -/
theorem Returns.sayAll (rs : List Record) : (rs.forM Logged.say).Returns () := by
  induction rs with
  | nil => exact .pure ()
  | cons r rs ih => exact (Returns.say r).bind ih

/-- What comes to a value for every item of a list comes to their values for all of them. -/
theorem Returns.exists_mapM {f : α → Logged β} {R : α → β → Prop} {l : List α}
    (h : ∀ a ∈ l, ∃ b, (f a).Returns b ∧ R a b) :
    ∃ bs, (l.mapM f).Returns bs ∧ List.Forall₂ R l bs := by
  induction l with
  | nil => exact ⟨[], .pure [], .nil⟩
  | cons a l ih =>
    obtain ⟨⟨b, hb, hab⟩, hl⟩ := List.forall_mem_cons.1 h
    obtain ⟨bs, hbs, hall⟩ := ih hl
    refine ⟨b :: bs, ?_, .cons hab hall⟩
    rw [List.mapM_cons]
    exact hb.bind (hbs.bind (.pure _))

/-- What comes to a value for every item of a list comes to the list of the values. -/
theorem Returns.mapM {f : α → Logged β} {g : α → β} {l : List α}
    (h : ∀ a ∈ l, (f a).Returns (g a)) : (l.mapM f).Returns (l.map g) := by
  induction l with
  | nil => exact .pure []
  | cons a l ih =>
    obtain ⟨ha, hl⟩ := List.forall_mem_cons.1 h
    rw [List.mapM_cons, List.map_cons]
    exact ha.bind ((ih hl).bind (.pure _))

/-- Whatever was said before, the computation comes to the fault. -/
def Fails (x : Logged α) (e : Fault) : Prop := ∀ said, ∃ said', x.run.run said = (.error e, said')

theorem Fails.throw (e : Fault) : Fails (throw e : Logged α) e := fun said => ⟨said, rfl⟩

/-- If the first step fails there is no second one. -/
theorem Fails.of_first {x : Logged α} {e : Fault} (h : x.Fails e) (f : α → Logged β) :
    (x >>= f).Fails e := by
  intro said
  obtain ⟨said', hsaid'⟩ := h said
  refine ⟨said', ?_⟩
  rw [ExceptT.run_bind, StateT.run_bind, hsaid']
  rfl

/-- Two steps fail as the second one does after the first. -/
theorem Returns.bind_fails {x : Logged α} {f : α → Logged β} {a : α} {e : Fault} (hx : x.Returns a)
    (hf : (f a).Fails e) : (x >>= f).Fails e := by
  intro said
  obtain ⟨mid, hmid⟩ := hx said
  obtain ⟨said', hsaid'⟩ := hf mid
  refine ⟨said', ?_⟩
  rw [ExceptT.run_bind, StateT.run_bind, hmid]
  exact hsaid'

/-- What fails for an item of a list fails for the list, if nothing fails for those before it. -/
theorem Fails.mapM {f : α → Logged β} {before after : List α} {a : α} {e : Fault}
    (hbefore : ∀ a ∈ before, ∃ b, (f a).Returns b) (h : (f a).Fails e) :
    ((before ++ a :: after).mapM f).Fails e := by
  induction before with
  | nil =>
    rw [List.nil_append, List.mapM_cons]
    exact h.of_first _
  | cons a' before ih =>
    obtain ⟨⟨b, hb⟩, hbefore⟩ := List.forall_mem_cons.1 hbefore
    rw [List.cons_append, List.mapM_cons]
    exact hb.bind_fails ((ih hbefore).of_first _)

/-- What the computation comes to does not depend on what was said before. -/
def IsSteady (x : Logged α) : Prop := ∃ result, ∀ said, (x.run.run said).1 = result

/-- A steady computation that gives a value once gives it whatever was said before. -/
theorem Yields.returns {x : Logged α} {a : α} (h : x.Yields a) (hx : x.IsSteady) :
    x.Returns a := by
  obtain ⟨result, hresult⟩ := hx
  obtain ⟨said, said', hrun⟩ := h
  have hok : Except.ok a = result := by rw [← hresult said, hrun]
  intro before
  exact ⟨(x.run.run before).2, Prod.ext ((hresult before).trans hok.symm) rfl⟩

/-- A steady computation gives one value only, whatever was said before it. -/
theorem Yields.unique {x : Logged α} {a b : α} (h : x.Yields a) (h' : x.Yields b)
    (hx : x.IsSteady) : a = b := by
  obtain ⟨said, hrun⟩ := h.returns hx []
  obtain ⟨said', hrun'⟩ := h'.returns hx []
  rw [hrun] at hrun'
  exact Except.ok.inj (Prod.mk.inj hrun').1

/-- A computation that always gives one value is steady. -/
theorem Returns.isSteady {x : Logged α} {a : α} (h : x.Returns a) : x.IsSteady := by
  refine ⟨.ok a, fun said => ?_⟩
  obtain ⟨said', hrun⟩ := h said
  rw [hrun]

/-- A computation that always fails in one way is steady as well. -/
theorem Fails.isSteady {x : Logged α} {e : Fault} (h : x.Fails e) : x.IsSteady := by
  refine ⟨.error e, fun said => ?_⟩
  obtain ⟨said', hrun⟩ := h said
  rw [hrun]

theorem IsSteady.pure (a : α) : IsSteady (pure a) := ⟨.ok a, fun _ => rfl⟩

theorem IsSteady.throw (e : Fault) : IsSteady (throw e : Logged α) := ⟨.error e, fun _ => rfl⟩

theorem IsSteady.of (x : Except Fault α) : (Logged.of x).IsSteady := ⟨x, fun _ => rfl⟩

theorem IsSteady.say (r : Record) : (Logged.say r).IsSteady := ⟨.ok (), fun _ => rfl⟩

/-- What was said before does not matter to two steps if it matters to neither of them. -/
theorem IsSteady.bind {x : Logged α} {f : α → Logged β} (hx : x.IsSteady)
    (hf : ∀ a, (f a).IsSteady) : (x >>= f).IsSteady := by
  obtain ⟨result, hresult⟩ := hx
  cases result with
  | error e =>
    refine ⟨.error e, fun said => ?_⟩
    rw [ExceptT.run_bind, StateT.run_bind]
    have hrun := hresult said
    rcases hx : x.run.run said with ⟨r, mid⟩
    rw [hx] at hrun
    obtain rfl : r = .error e := hrun
    rfl
  | ok a =>
    obtain ⟨result, hf⟩ := hf a
    refine ⟨result, fun said => ?_⟩
    rw [ExceptT.run_bind, StateT.run_bind]
    have hrun := hresult said
    rcases hx : x.run.run said with ⟨r, mid⟩
    rw [hx] at hrun
    obtain rfl : r = .ok a := hrun
    exact hf mid

/-- If what was said before matters to no step, then it does not matter to taking them for each item
of a list. -/
theorem IsSteady.mapM {f : α → Logged β} (hf : ∀ a, (f a).IsSteady) (l : List α) :
    (l.mapM f).IsSteady := by
  induction l with
  | nil =>
    rw [List.mapM_nil]
    exact .pure []
  | cons a l ih =>
    rw [List.mapM_cons]
    exact (hf a).bind fun b => ih.bind fun bs => .pure (b :: bs)

/-- Nor does it to a fold over a list of steps that it does not matter to. -/
theorem IsSteady.foldlM {α σ : Type} {f : σ → α → Logged σ} (hf : ∀ s a, (f s a).IsSteady)
    (l : List α) (s : σ) : (l.foldlM f s).IsSteady := by
  induction l generalizing s with
  | nil =>
    rw [List.foldlM_nil]
    exact .pure s
  | cons a l ih =>
    rw [List.foldlM_cons]
    exact (hf s a).bind fun s' => ih s'

/-- Whatever was said before, the computation comes to a value of the kind `Q`, or to a fault of the
kind `P`. -/
def Ends (P : Fault → Prop) (Q : α → Prop) (x : Logged α) : Prop :=
  (∃ a, x.Returns a ∧ Q a) ∨ ∃ e, x.Fails e ∧ P e

section Ends

variable {P P' : Fault → Prop} {Q Q' : α → Prop} {R : β → Prop}

/-- A computation that says nothing ends as it did. -/
theorem Ends.of {x : Except Fault α} (h : Except.Ends P Q x) : (Logged.of x).Ends P Q := by
  cases x with
  | error e => exact .inr ⟨e, .throw e, h⟩
  | ok a => exact .inl ⟨a, .of rfl, h⟩

theorem Ends.of_failsBy {x : Except Fault α} (h : Except.FailsBy P x) :
    (Logged.of x).Ends P fun _ => True :=
  .of (Except.failsBy_iff.1 h)

/-- A computation that always gives a value ends well. -/
theorem Returns.ends {x : Logged α} {a : α} (h : x.Returns a) (ha : Q a) : x.Ends P Q :=
  .inl ⟨a, h, ha⟩

/-- Two steps end as the second one does, from what holds of the values of the first. -/
theorem Ends.bind {x : Logged α} {f : α → Logged β} (h : x.Ends P Q)
    (hf : ∀ a, Q a → (f a).Ends P R) : (x >>= f).Ends P R := by
  rcases h with ⟨a, hx, ha⟩ | ⟨e, hx, he⟩
  · rcases hf a ha with ⟨b, hb, hR⟩ | ⟨e, he, hP⟩
    · exact .inl ⟨b, hx.bind hb, hR⟩
    · exact .inr ⟨e, hx.bind_fails he, hP⟩
  · exact .inr ⟨e, hx.of_first f, he⟩

theorem Ends.pure {a : α} (h : Q a) : (pure a : Logged α).Ends P Q :=
  (Returns.pure a).ends h

/-- Over a list, the faults are those of the steps. -/
theorem Ends.mapM {f : α → Logged β} (h : ∀ a, (f a).Ends P fun _ => True) (l : List α) :
    (l.mapM f).Ends P fun _ => True := by
  induction l with
  | nil =>
    rw [List.mapM_nil]
    exact .pure trivial
  | cons a l ih =>
    rw [List.mapM_cons]
    exact (h a).bind fun b _ => ih.bind fun bs _ => .pure trivial

/-- In a fold over a list, the faults are those of the steps as well. -/
theorem Ends.foldlM {α σ : Type} {f : σ → α → Logged σ} (h : ∀ s a, (f s a).Ends P fun _ => True)
    (l : List α) (s : σ) : (l.foldlM f s).Ends P fun _ => True := by
  induction l generalizing s with
  | nil =>
    rw [List.foldlM_nil]
    exact .pure trivial
  | cons a l ih =>
    rw [List.foldlM_cons]
    exact (h s a).bind fun s' _ => ih s'

/-- How a computation ends when nothing was said before it. -/
theorem Ends.outcome {x : Logged α} (h : x.Ends P Q) : Except.Ends P Q x.outcome.1 := by
  rcases h with ⟨a, hx, ha⟩ | ⟨e, hx, he⟩
  · obtain ⟨said, hrun⟩ := hx []
    rw [Logged.outcome, hrun]
    exact ha
  · obtain ⟨said, hrun⟩ := hx []
    rw [Logged.outcome, hrun]
    exact he

/-- What is said of the faults and of the values can be weakened, as for `Except.Ends`. -/
theorem Ends.mono {x : Logged α} (h : x.Ends P Q) (hP : ∀ e, P e → P' e) (hQ : ∀ a, Q a → Q' a) :
    x.Ends P' Q' :=
  h.imp (fun ⟨a, hx, ha⟩ => ⟨a, hx, hQ a ha⟩) fun ⟨e, hx, he⟩ => ⟨e, hx, hP e he⟩

/-- What holds of the value if there is one, holds of the value that it ends with. -/
theorem Ends.of_yields {x : Logged α} (h : x.Ends P Q) (hQ : ∀ a, x.Yields a → Q' a) :
    x.Ends P Q' :=
  h.imp (fun ⟨a, hx, _⟩ => ⟨a, hx, hQ a hx.yields⟩) fun he => he

/-- A computation that ends in one of two ways is steady: the end does not depend on what was
said. -/
theorem Ends.isSteady {x : Logged α} (h : x.Ends P Q) : x.IsSteady := by
  rcases h with ⟨a, hx, -⟩ | ⟨e, hx, -⟩
  · exact hx.isSteady
  · exact hx.isSteady

/-- A first step that succeeds changes nothing about how the rest ends. -/
theorem Returns.bind_ends {x : Logged α} {f : α → Logged β} {a : α} (h : x.Returns a)
    (hf : (f a).Ends P R) : (x >>= f).Ends P R :=
  (h.ends (Q := fun b => b = a) rfl).bind fun _ hb => hb ▸ hf

end Ends

end Logged

/-! ## Computations that read descriptions -/

namespace Resolving

/-- The computation comes to a value and to the descriptions that are known then, from those that
are known before. -/
def Yields (x : Resolving α) (known : PomCache) (a : α) (known' : PomCache) : Prop :=
  ∃ said said', (x.run.run known).run said = ((.ok a, known'), said')

/-- What holds of the value that a computation comes to when nothing was said before. -/
def comesTo (x : Resolving α) (known : PomCache) (holds : α → Bool) : Bool :=
  match ((x.run.run known).run []).1.1 with
  | .ok a => holds a
  | .error _ => false

/-- A computation whose value passes a test gives a value that does. -/
theorem exists_yields (x : Resolving α) (known : PomCache) (holds : α → Bool)
    (h : x.comesTo known holds = true) : ∃ a known', x.Yields known a known' ∧ holds a = true := by
  rw [comesTo] at h
  rcases hx : (x.run.run known).run [] with ⟨⟨e | a, known'⟩, said⟩
  · rw [hx] at h
    cases h
  · rw [hx] at h
    exact ⟨a, known', ⟨[], said, hx⟩, h⟩

variable {known known' : PomCache}

theorem Yields.pure {a b : α} (h : Yields (pure a) known b known') : b = a ∧ known' = known := by
  obtain ⟨said, said', h⟩ := h
  cases h
  exact ⟨rfl, rfl⟩

/-- Looking at the descriptions changes none of them. -/
theorem Yields.get {a : PomCache} (h : Yields (getThe PomCache) known a known') :
    a = known ∧ known' = known := by
  obtain ⟨said, said', h⟩ := h
  cases h
  exact ⟨rfl, rfl⟩

/-- Remembering a description changes what is known, and that alone. -/
theorem Yields.modify {f : PomCache → PomCache} {u : PUnit}
    (h : Yields (modifyThe PomCache f) known u known') : known' = f known := by
  obtain ⟨said, said', h⟩ := h
  cases h
  rfl

theorem Yields.throw {e : Fault} {a : α} (h : Yields (throw e) known a known') : False := by
  obtain ⟨said, said', h⟩ := h
  cases h

/-- A computation that reads no description leaves what is known as it was. -/
theorem Yields.lift {x : Logged α} {a : α} (h : (Resolving.lift x).Yields known a known') :
    x.Yields a ∧ known' = known := by
  obtain ⟨said, said', h⟩ := h
  have hrun : ((Resolving.lift x).run.run known).run said =
      (((x.run.run said).1, known), (x.run.run said).2) := rfl
  rw [hrun] at h
  obtain ⟨⟨ha, hknown⟩, hsaid⟩ := Prod.mk.injEq .. ▸ Prod.mk.injEq .. ▸ h
  exact ⟨⟨said, said', Prod.ext ha hsaid⟩, hknown.symm⟩

/-- What is said side by side with others is said from nothing. -/
theorem Yields.aside {x : Resolving α} {a : α} (h : (Resolving.aside x).Yields known a known') :
    x.Yields known a known' := by
  obtain ⟨said, said', h⟩ := h
  have hrun : (((Resolving.aside x).run.run known).run said).1 =
      ((x.run.run known).run []).1 := rfl
  rw [h] at hrun
  exact ⟨[], ((x.run.run known).run []).2, Prod.ext hrun.symm rfl⟩

/-- Inversion: the second step starts with what the first has come to know. -/
theorem Yields.bind {x : Resolving α} {f : α → Resolving β} {b : β}
    (h : (x >>= f).Yields known b known') :
    ∃ a mid, x.Yields known a mid ∧ (f a).Yields mid b known' := by
  obtain ⟨said, said', h⟩ := h
  rw [ExceptT.run_bind, StateT.run_bind, StateT.run_bind] at h
  rcases hx : (x.run.run known).run said with ⟨⟨e | a, mid⟩, then_⟩
  · rw [hx] at h
    cases h
  · rw [hx] at h
    exact ⟨a, mid, ⟨said, then_, hx⟩, then_, said', h⟩

/-- A first step that reads no descriptions. -/
theorem Yields.lift_bind {x : Logged α} {f : α → Resolving β} {b : β}
    (h : (Resolving.lift x >>= f).Yields known b known') :
    ∃ a, x.Yields a ∧ (f a).Yields known b known' := by
  obtain ⟨a, mid, hlift, hrest⟩ := h.bind
  obtain ⟨hx, rfl⟩ := hlift.lift
  exact ⟨a, hx, hrest⟩

/-- What a step keeps of the known descriptions, all steps keep, and each tells of its result. -/
theorem Yields.mapM {I : PomCache → Prop} {R : α → β → Prop} {f : α → Resolving β}
    (step : ∀ a b known known', I known → (f a).Yields known b known' → I known' ∧ R a b)
    {l : List α} {bs : List β} (hI : I known) (h : (l.mapM f).Yields known bs known') :
    I known' ∧ List.Forall₂ R l bs := by
  induction l generalizing known bs with
  | nil =>
    rw [List.mapM_nil] at h
    obtain ⟨rfl, rfl⟩ := h.pure
    exact ⟨hI, .nil⟩
  | cons a l ih =>
    rw [List.mapM_cons] at h
    obtain ⟨b, mid, hb, h⟩ := h.bind
    obtain ⟨hmid, hab⟩ := step a b known mid hI hb
    obtain ⟨bs', mid', hbs, h⟩ := h.bind
    obtain ⟨rfl, rfl⟩ := h.pure
    obtain ⟨hknown', hl⟩ := ih hmid hbs
    exact ⟨hknown', .cons hab hl⟩

/-- Whatever was said before, the computation comes to the value, and to the descriptions that are
known then. -/
def Returns (x : Resolving α) (known : PomCache) (a : α) (known' : PomCache) : Prop :=
  ∀ said, ∃ said', (x.run.run known).run said = ((.ok a, known'), said')

/-- What one computation comes to, the other one comes to as well. -/
def Repeats (x x' : Resolving α) : Prop :=
  ∀ known a known', x.Yields known a known' → x'.Returns known a known'

theorem Returns.pure (a : α) (known : PomCache) : Returns (pure a) known a known :=
  fun said => ⟨said, rfl⟩

theorem Repeats.pure (a : α) : Repeats (pure a) (pure a) := by
  intro known b known' h
  obtain ⟨rfl, rfl⟩ := h.pure
  exact .pure _ _

theorem Repeats.throw (e : Fault) (x : Resolving α) : Repeats (throw e) x :=
  fun _ _ _ h => h.throw.elim

theorem Repeats.get : Repeats (getThe PomCache) (getThe PomCache) := by
  intro known b known' h said
  obtain ⟨rfl, rfl⟩ := h.get
  exact ⟨said, rfl⟩

/-- What is remembered the first time is remembered again. -/
theorem Repeats.modify (f : PomCache → PomCache) :
    Repeats (modifyThe PomCache f) (modifyThe PomCache f) := by
  intro known b known' h said
  obtain rfl := h.modify
  exact ⟨said, rfl⟩

theorem Returns.lift {x : Logged α} {a : α} (h : x.Returns a) (known : PomCache) :
    (Resolving.lift x).Returns known a known := by
  intro said
  obtain ⟨said', hsaid'⟩ := h said
  have hrun : ((Resolving.lift x).run.run known).run said =
      (((x.run.run said).1, known), (x.run.run said).2) := rfl
  rw [hrun, hsaid']
  exact ⟨said', rfl⟩

/-- What gives its value once does so again. -/
theorem Repeats.lift {x x' : Logged α} (h : ∀ a, x.Yields a → x'.Returns a) :
    Repeats (Resolving.lift x) (Resolving.lift x') := by
  intro known a known' hx
  obtain ⟨hyields, rfl⟩ := hx.lift
  exact Returns.lift (h a hyields) known'

theorem Repeats.aside {x x' : Resolving α} (h : Repeats x x') :
    Repeats (Resolving.aside x) (Resolving.aside x') := by
  intro known a known' hx said
  obtain ⟨said', hsaid'⟩ := h known a known' hx.aside []
  have hrun : ((Resolving.aside x').run.run known).run said =
      (((x'.run.run known).run []).1,
        said ++ ((x'.run.run known).run []).2.map fun r => { r with aside := true }) := rfl
  rw [hrun, hsaid']
  exact ⟨_, rfl⟩

/-- Two steps, with what is known handed from one to the other. -/
theorem Returns.bind {x : Resolving α} {f : α → Resolving β} {known mid known' : PomCache} {a : α}
    {b : β} (hx : x.Returns known a mid) (hf : (f a).Returns mid b known') :
    (x >>= f).Returns known b known' := by
  intro said
  obtain ⟨said', hsaid'⟩ := hx said
  obtain ⟨said'', hsaid''⟩ := hf said'
  refine ⟨said'', ?_⟩
  rw [ExceptT.run_bind, StateT.run_bind, StateT.run_bind, hsaid']
  exact hsaid''

/-- If each of two steps can be repeated, then so can the two. -/
theorem Repeats.bind {x x' : Resolving α} {f f' : α → Resolving β} (hx : Repeats x x')
    (hf : ∀ a, Repeats (f a) (f' a)) : Repeats (x >>= f) (x' >>= f') := by
  intro known b known' h
  obtain ⟨a, mid, hfirst, hrest⟩ := h.bind
  exact (hx known a mid hfirst).bind (hf a mid b known' hrest)

/-- A step that can be repeated can be repeated for each item of a list: what was remembered for the
first items does no harm to those that follow. -/
theorem Repeats.mapM {f f' : α → Resolving β} (hf : ∀ a, Repeats (f a) (f' a)) (l : List α) :
    Repeats (l.mapM f) (l.mapM f') := by
  induction l with
  | nil =>
    rw [List.mapM_nil, List.mapM_nil]
    exact .pure []
  | cons a l ih =>
    rw [List.mapM_cons, List.mapM_cons]
    exact (hf a).bind fun b => ih.bind fun bs => .pure (b :: bs)

end Resolving

end BuildFiles
