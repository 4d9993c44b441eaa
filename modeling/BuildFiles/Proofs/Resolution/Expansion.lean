import BuildFiles.Proofs.Entries
import BuildFiles.Maven.Properties
import Mathlib.Data.Nat.Find
import Mathlib.Logic.Function.Iterate
import Mathlib.Tactic.SplitIfs

/-!
# Expansion of properties

References to properties are replaced all at once, and those in what results in the next round. The
test for a round that changes nothing only saves rounds: what comes out is what the last of all
rounds would give (`rounds_eq_iterate`). A text that is a `Template` is one after each round as
well, and where a property refers only to properties of a lower rank, the rank of what is referred
to goes down with every round. So ten rounds do what replacing references from within does, if ten
ranks are enough: `expand_resolves`.
-/

namespace BuildFiles.Properties

variable {properties : Properties} {name value : String} {cs : List Char}

/-! ## One round -/

/-- How a text refers to the property. -/
def reference (name : String) : String := "$\x7b" ++ name ++ "\x7d"

theorem toList_reference (name : String) :
    (reference name).toList = '$' :: '{' :: (name.toList ++ ['}']) := by
  simp [reference]

@[simp] theorem substitute_nil (properties : Properties) : properties.substitute [] = [] := by
  rw [substitute]

theorem substitute_cons {c : Char} (hc : c ≠ '$') :
    properties.substitute (c :: cs) = c :: properties.substitute cs := by
  rw [substitute]
  intro _ hdollar _
  exact hc hdollar

/-- A reference is replaced by the value, and one that leads to no property stays. What stands after
it does not matter. -/
theorem substitute_reference_append (hname : name ≠ "") (hbrace : '}' ∉ name.toList) :
    properties.substitute ((reference name).toList ++ cs) =
      ((properties.get? name).getD (reference name)).toList ++ properties.substitute cs := by
  obtain ⟨c, cs', hcs⟩ : ∃ c cs', name.toList = c :: cs' :=
    List.exists_cons_of_ne_nil (by simpa using hname)
  have hcut : Text.cut? '}' (name.toList ++ '}' :: cs) = some (name.toList, cs) :=
    Text.cut?_append hbrace
  have htext : (reference name).toList ++ cs = '$' :: '{' :: (name.toList ++ '}' :: cs) := by
    simp [toList_reference]
  have hget : properties.get? (String.ofList (c :: cs')) = properties.get? name := by
    rw [← hcs, String.ofList_toList]
  rw [htext, substitute, hcut, hcs]
  dsimp only
  rw [hget]
  cases properties.get? name with
  | none => simp [toList_reference, hcs]
  | some value => rfl

theorem substitute_of_not_mem (h : '$' ∉ cs) : properties.substitute cs = cs := by
  induction cs with
  | nil => exact substitute_nil properties
  | cons c cs ih =>
    obtain ⟨hc, hcs⟩ := not_or.1 (mt List.mem_cons.2 h)
    rw [substitute_cons (Ne.symm hc), ih hcs]

/-- A reference is replaced by the value. -/
theorem substitute_reference (hname : name ≠ "") (hbrace : '}' ∉ name.toList)
    (h : properties.get? name = some value) :
    properties.substitute (reference name).toList = value.toList := by
  have happend : properties.substitute ((reference name).toList ++ []) = value.toList ++ [] := by
    rw [substitute_reference_append hname hbrace, h, Option.getD_some, substitute_nil]
  rwa [List.append_nil, List.append_nil] at happend

/-! ## All rounds -/

theorem rounds_of_substitute (h : properties.substitute cs = cs) (n : Nat) :
    properties.rounds n cs = cs := by
  cases n with
  | zero => rfl
  | succ n => rw [rounds, h, if_pos rfl]

/-- To stop early makes no difference. -/
theorem rounds_eq_iterate (properties : Properties) (n : Nat) (cs : List Char) :
    properties.rounds n cs = properties.substitute^[n] cs := by
  induction n generalizing cs with
  | zero => rfl
  | succ n ih =>
    rw [rounds, Function.iterate_succ_apply, ← ih]
    split_ifs with hsame
    · rw [hsame, rounds_of_substitute hsame]
    · rfl

/-- What a value says for itself replaces a reference to it. -/
theorem expand_reference (hname : name ≠ "") (hbrace : '}' ∉ name.toList)
    (h : properties.get? name = some value)
    (hvalue : properties.substitute value.toList = value.toList) :
    properties.expand (reference name) = value := by
  have hrounds : properties.rounds maxRounds (reference name).toList = value.toList := by
    rw [rounds_eq_iterate, maxRounds, Function.iterate_succ_apply,
      substitute_reference hname hbrace h, Function.iterate_fixed hvalue]
  rw [expand, hrounds, String.ofList_toList]

theorem expand_of_substitute (hvalue : properties.substitute value.toList = value.toList) :
    properties.expand value = value := by
  rw [expand, rounds_of_substitute hvalue, String.ofList_toList]

/-- The rounds come to an end: what comes out is there after at most ten of them, each of which
changed something, and if it took fewer, another round changes nothing. -/
theorem exists_rounds (properties : Properties) (s : String) : ∃ k ≤ maxRounds,
    properties.expand s = String.ofList (properties.substitute^[k] s.toList) ∧
      (∀ j < k, properties.substitute^[j + 1] s.toList ≠ properties.substitute^[j] s.toList) ∧
      (k < maxRounds → properties.substitute (properties.expand s).toList =
        (properties.expand s).toList) := by
  have hexpand : ∀ k ≤ maxRounds, k = maxRounds ∨
      properties.substitute^[k + 1] s.toList = properties.substitute^[k] s.toList →
      properties.expand s = String.ofList (properties.substitute^[k] s.toList) := by
    rintro k hk (rfl | hfixed)
    · rw [expand, rounds_eq_iterate]
    · rw [Function.iterate_succ_apply'] at hfixed
      rw [expand, rounds_eq_iterate, ← Nat.sub_add_cancel hk, Function.iterate_add_apply,
        Function.iterate_fixed hfixed]
  by_cases hends : ∃ k, k ≤ maxRounds ∧
      properties.substitute^[k + 1] s.toList = properties.substitute^[k] s.toList
  · -- the first round that changes nothing
    classical
    obtain ⟨hk, hfixed⟩ := Nat.find_spec hends
    have hresult := hexpand _ hk (.inr hfixed)
    refine ⟨Nat.find hends, hk, hresult, fun j hj hsame => ?_, fun _ => ?_⟩
    · exact Nat.find_min hends hj ⟨Nat.le_of_lt (Nat.lt_of_lt_of_le hj hk), hsame⟩
    · rw [hresult, String.toList_ofList, ← Function.iterate_succ_apply' properties.substitute,
        hfixed]
  · refine ⟨maxRounds, Nat.le_refl _, hexpand _ (Nat.le_refl _) (.inl rfl), fun j hj hsame => ?_,
      fun hlt => absurd hlt (Nat.lt_irrefl _)⟩
    exact hends ⟨j, Nat.le_of_lt hj, hsame⟩

/-! ## Templates -/

/-- A piece of a text that refers to properties. -/
inductive Piece where
  /-- a character that stands for itself -/
  | letter (c : Char)
  | reference (name : String)
  deriving DecidableEq

namespace Piece

/-- The piece as it is written. -/
def text : Piece → List Char
  | .letter c => [c]
  | .reference name => (Properties.reference name).toList

/-- The piece can be told from its text: what stands for itself does not begin a reference, and what
is referred to has a name that the reference does not end in. -/
def IsProper : Piece → Prop
  | .letter c => c ≠ '$'
  | .reference name => name ≠ "" ∧ '}' ∉ name.toList

instance (p : Piece) : Decidable p.IsProper := by
  cases p <;> unfold IsProper <;> infer_instance

theorem text_ne_nil (p : Piece) : p.text ≠ [] := by
  cases p with
  | letter c => exact List.cons_ne_nil c []
  | reference name => simp [text, toList_reference]

/-- What a text begins with is one piece. -/
theorem text_append_inj {p q : Piece} (hp : p.IsProper) (hq : q.IsProper) {cs cs' : List Char}
    (h : p.text ++ cs = q.text ++ cs') : p = q ∧ cs = cs' := by
  rcases p with c | name <;> rcases q with c' | name' <;>
    simp only [text, toList_reference, List.cons_append, List.append_assoc, List.nil_append,
      List.cons.injEq, true_and] at h
  · exact ⟨congrArg letter h.1, h.2⟩
  · exact absurd h.1 hp
  · exact absurd h.1.symm hq
  · -- both names end where the first brace is closed
    have hcut : Text.cut? '}' (name.toList ++ '}' :: cs) = some (name.toList, cs) :=
      Text.cut?_append hp.2
    rw [h, Text.cut?_append hq.2] at hcut
    obtain ⟨hname, rfl⟩ := Prod.mk.inj (Option.some.inj hcut)
    exact ⟨congrArg reference (String.toList_inj.1 hname).symm, rfl⟩

end Piece

/-- A text that refers to properties, piece by piece. -/
abbrev Template := List Piece

namespace Template

variable {t u : Template}

/-- The characters of the template. -/
def letters (t : Template) : List Char := t.flatMap Piece.text

/-- The template as it is written. -/
def text (t : Template) : String := String.ofList t.letters

/-- All pieces can be told from the text. -/
def IsProper (t : Template) : Prop := ∀ p ∈ t, p.IsProper

instance (t : Template) : Decidable t.IsProper :=
  inferInstanceAs (Decidable (∀ p ∈ t, p.IsProper))

@[simp] theorem toList_text (t : Template) : t.text.toList = t.letters := String.toList_ofList

theorem letters_cons (p : Piece) (t : Template) : letters (p :: t) = p.text ++ t.letters :=
  List.flatMap_cons

theorem letters_append (t u : Template) : letters (t ++ u) = t.letters ++ u.letters :=
  List.flatMap_append

/-- A text is written by one template. -/
theorem eq_of_letters (ht : t.IsProper) (hu : u.IsProper) (h : t.letters = u.letters) : t = u := by
  induction t generalizing u with
  | nil =>
    cases u with
    | nil => rfl
    | cons q u => exact absurd (List.append_eq_nil_iff.1 h.symm).1 q.text_ne_nil
  | cons p t ih =>
    cases u with
    | nil => exact absurd (List.append_eq_nil_iff.1 h).1 p.text_ne_nil
    | cons q u =>
      obtain ⟨hp, hproper⟩ := List.forall_mem_cons.1 ht
      obtain ⟨hq, hproper'⟩ := List.forall_mem_cons.1 hu
      obtain ⟨rfl, hrest⟩ := Piece.text_append_inj hp hq h
      rw [ih hproper hproper' hrest]

end Template

variable {t t' u : Template}

/-- The template with each reference to a property replaced by what the value of the property comes
to when this is done to it, too. References that lead to no property stay. -/
inductive Resolves (properties : Properties) : Template → Template → Prop
  | nil : Resolves properties [] []
  | letter {c : Char} {t u : Template} (h : Resolves properties t u) :
    Resolves properties (.letter c :: t) (.letter c :: u)
  | undefined {name : String} {t u : Template} (hname : properties.get? name = none)
    (h : Resolves properties t u) :
    Resolves properties (.reference name :: t) (.reference name :: u)
  | defined {name : String} {value within t u : Template} (hproper : value.IsProper)
    (hname : properties.get? name = some value.text) (hvalue : Resolves properties value within)
    (h : Resolves properties t u) :
    Resolves properties (.reference name :: t) (within ++ u)

namespace Resolves

/-- No reference to a property is left. -/
theorem get?_eq_none (h : properties.Resolves t u) (hname : .reference name ∈ u) :
    properties.get? name = none := by
  induction h with
  | nil => cases hname
  | letter _ ih => exact ih ((List.mem_cons.1 hname).resolve_left (by simp))
  | undefined hnone _ ih =>
    rcases List.mem_cons.1 hname with heq | hmem
    · rwa [Piece.reference.inj heq]
    · exact ih hmem
  | defined _ _ _ _ ihvalue ih => exact (List.mem_append.1 hname).elim ihvalue ih

theorem isProper (h : properties.Resolves t u) (ht : t.IsProper) : u.IsProper := by
  induction h with
  | nil => exact ht
  | letter _ ih =>
    obtain ⟨hp, ht⟩ := List.forall_mem_cons.1 ht
    exact List.forall_mem_cons.2 ⟨hp, ih ht⟩
  | undefined _ _ ih =>
    obtain ⟨hp, ht⟩ := List.forall_mem_cons.1 ht
    exact List.forall_mem_cons.2 ⟨hp, ih ht⟩
  | defined hproper _ _ _ ihvalue ih =>
    exact List.forall_mem_append.2 ⟨ihvalue hproper, ih (List.forall_mem_cons.1 ht).2⟩

/-- A template comes to one other; by induction on the template, where a reference has one value and
the texts between references can be told from them. -/
theorem unique (h : properties.Resolves t u) {u' : Template} (h' : properties.Resolves t u') :
    u = u' := by
  induction h generalizing u' with
  | nil =>
    cases h'
    rfl
  | letter _ ih =>
    cases h' with
    | letter h' => rw [ih h']
  | undefined hnone _ ih =>
    cases h' with
    | undefined _ h' => rw [ih h']
    | defined _ hsome => rw [hnone] at hsome; cases hsome
  | @defined name value within t u hproper hsome _ _ ihvalue ih =>
    cases h' with
    | undefined hnone => rw [hnone] at hsome; cases hsome
    | @defined _ value' _ _ _ hproper' hsome' hvalue' h' =>
      have htext : value.text = value'.text := Option.some.inj (hsome.symm.trans hsome')
      obtain rfl := Template.eq_of_letters hproper hproper' (String.ofList_inj.1 htext)
      rw [ihvalue hvalue', ih h']

theorem of_append {v : Template} (h : properties.Resolves (v ++ t) u) :
    ∃ within rest, u = within ++ rest ∧ properties.Resolves v within ∧
      properties.Resolves t rest := by
  induction v generalizing u with
  | nil => exact ⟨[], u, rfl, .nil, h⟩
  | cons p v ih =>
    rw [List.cons_append] at h
    cases h with
    | letter h =>
      obtain ⟨within, rest, rfl, hv, ht⟩ := ih h
      exact ⟨_, rest, (List.cons_append).symm, .letter hv, ht⟩
    | undefined hnone h =>
      obtain ⟨within, rest, rfl, hv, ht⟩ := ih h
      exact ⟨_, rest, (List.cons_append).symm, .undefined hnone hv, ht⟩
    | defined hproper hsome hvalue h =>
      obtain ⟨within, rest, rfl, hv, ht⟩ := ih h
      exact ⟨_, rest, (List.append_assoc ..).symm, .defined hproper hsome hvalue hv, ht⟩

/-- Where nothing refers to a property, nothing is replaced. -/
theorem refl_of_undefined (h : ∀ name, .reference name ∈ t → properties.get? name = none) :
    properties.Resolves t t := by
  induction t with
  | nil => exact .nil
  | cons p t ih =>
    have hrest := ih fun name hname => h name (List.mem_cons_of_mem p hname)
    cases p with
    | letter c => exact .letter hrest
    | reference name => exact .undefined (h name List.mem_cons_self) hrest

end Resolves

/-! ## One round of a template -/

/-- The template with each reference to a property replaced by the value. -/
inductive Replaces (properties : Properties) : Template → Template → Prop
  | nil : Replaces properties [] []
  | letter {c : Char} {t u : Template} (h : Replaces properties t u) :
    Replaces properties (.letter c :: t) (.letter c :: u)
  | undefined {name : String} {t u : Template} (hname : properties.get? name = none)
    (h : Replaces properties t u) :
    Replaces properties (.reference name :: t) (.reference name :: u)
  | defined {name : String} {value t u : Template} (hproper : value.IsProper)
    (hname : properties.get? name = some value.text) (h : Replaces properties t u) :
    Replaces properties (.reference name :: t) (value ++ u)

namespace Replaces

theorem isProper (h : properties.Replaces t u) (ht : t.IsProper) : u.IsProper := by
  induction h with
  | nil => exact ht
  | letter _ ih =>
    obtain ⟨hp, ht⟩ := List.forall_mem_cons.1 ht
    exact List.forall_mem_cons.2 ⟨hp, ih ht⟩
  | undefined _ _ ih =>
    obtain ⟨hp, ht⟩ := List.forall_mem_cons.1 ht
    exact List.forall_mem_cons.2 ⟨hp, ih ht⟩
  | defined hproper _ _ ih =>
    exact List.forall_mem_append.2 ⟨hproper, ih (List.forall_mem_cons.1 ht).2⟩

/-- A round of expansion turns the text of a template into the text of the template that it is
replaced by. -/
theorem substitute_letters (h : properties.Replaces t u) (ht : t.IsProper) :
    properties.substitute t.letters = u.letters := by
  induction h with
  | nil => exact substitute_nil properties
  | letter _ ih =>
    obtain ⟨hp, ht⟩ := List.forall_mem_cons.1 ht
    exact (substitute_cons hp).trans (congrArg _ (ih ht))
  | undefined hname _ ih =>
    obtain ⟨hp, ht⟩ := List.forall_mem_cons.1 ht
    rw [Template.letters_cons, Template.letters_cons, Piece.text,
      substitute_reference_append hp.1 hp.2, hname, Option.getD_none, ih ht]
  | defined _ hname _ ih =>
    obtain ⟨hp, ht⟩ := List.forall_mem_cons.1 ht
    rw [Template.letters_cons, Template.letters_append, Piece.text,
      substitute_reference_append hp.1 hp.2, hname, Option.getD_some, Template.toList_text, ih ht]

/-- After a round the template comes to the same. -/
theorem resolves (h : properties.Replaces t t') (hu : properties.Resolves t' u) :
    properties.Resolves t u := by
  induction h generalizing u with
  | nil => exact hu
  | letter _ ih =>
    cases hu with
    | letter hu => exact .letter (ih hu)
  | undefined hname _ ih =>
    cases hu with
    | undefined _ hu => exact .undefined hname (ih hu)
    | defined _ hsome => rw [hname] at hsome; cases hsome
  | defined hproper hname _ ih =>
    obtain ⟨within, rest, rfl, hvalue, hrest⟩ := hu.of_append
    exact .defined hproper hname hvalue (ih hrest)

/-- Where nothing refers to a property, a round changes nothing. -/
theorem refl_of_undefined (h : ∀ name, .reference name ∈ t → properties.get? name = none) :
    properties.Replaces t t := by
  induction t with
  | nil => exact .nil
  | cons p t ih =>
    have hrest := ih fun name hname => h name (List.mem_cons_of_mem p hname)
    cases p with
    | letter c => exact .letter hrest
    | reference name => exact .undefined (h name List.mem_cons_self) hrest

end Replaces

/-! ## Ranks -/

variable {rank : String → Nat} {n : Nat}

/-- The properties that the template refers to have ranks below `n`. -/
def IsBelow (properties : Properties) (rank : String → Nat) (n : Nat) (t : Template) : Prop :=
  ∀ name, .reference name ∈ t → properties.get? name ≠ none → rank name < n

/-- The properties have ranks below `n`, and the value of each is a template that refers only to
properties of lower ranks. -/
def IsRanked (properties : Properties) (rank : String → Nat) (n : Nat) : Prop :=
  ∀ name value, properties.get? name = some value → rank name < n ∧
    ∃ t : Template, t.IsProper ∧ t.text = value ∧ properties.IsBelow rank (rank name) t

theorem IsBelow.tail {p : Piece} (h : properties.IsBelow rank n (p :: t)) :
    properties.IsBelow rank n t :=
  fun name hname => h name (List.mem_cons_of_mem p hname)

/-- What a template refers to after a round has a lower rank, as each reference was replaced by a
value that refers to lower ones only. -/
theorem IsRanked.exists_replaces {m : Nat} (h : properties.IsRanked rank m)
    (hbelow : properties.IsBelow rank (n + 1) t) :
    ∃ t', properties.Replaces t t' ∧ properties.IsBelow rank n t' := by
  induction t with
  | nil => exact ⟨[], .nil, fun _ hname => by cases hname⟩
  | cons p t ih =>
    obtain ⟨t', hreplaces, hlower⟩ := ih hbelow.tail
    cases p with
    | letter c =>
      refine ⟨_, .letter hreplaces, fun name hname => hlower name ?_⟩
      exact (List.mem_cons.1 hname).resolve_left (by simp)
    | reference name =>
      rcases hname : properties.get? name with _ | value
      · refine ⟨_, .undefined hname hreplaces, fun name' hmem hsome => ?_⟩
        refine hlower name' ((List.mem_cons.1 hmem).resolve_left ?_) hsome
        rintro ⟨⟩
        exact hsome hname
      · obtain ⟨-, v, hv, rfl, hvalue⟩ := h name value hname
        have hrank : rank name < n + 1 := hbelow name List.mem_cons_self (by simp [hname])
        refine ⟨_, .defined hv hname hreplaces, fun name' hmem hsome => ?_⟩
        rcases List.mem_append.1 hmem with hmem | hmem
        · exact Nat.lt_of_lt_of_le (hvalue name' hmem hsome) (Nat.le_of_lt_succ hrank)
        · exact hlower name' hmem hsome

/-- As many rounds as there are ranks do all that is to be done. The induction is on the ranks of
what the template refers to. -/
theorem IsRanked.exists_iterate {m : Nat} (h : properties.IsRanked rank m) (ht : t.IsProper)
    (hbelow : properties.IsBelow rank n t) :
    ∃ u, properties.Resolves t u ∧ properties.substitute^[n] t.letters = u.letters := by
  induction n generalizing t with
  | zero =>
    refine ⟨t, .refl_of_undefined fun name hname => ?_, rfl⟩
    exact Classical.not_not.1 fun hsome => Nat.not_lt_zero _ (hbelow name hname hsome)
  | succ n ih =>
    obtain ⟨t', hreplaces, hlower⟩ := h.exists_replaces hbelow
    obtain ⟨u, hu, htext⟩ := ih (hreplaces.isProper ht) hlower
    refine ⟨u, hreplaces.resolves hu, ?_⟩
    rw [Function.iterate_succ_apply, hreplaces.substitute_letters ht, htext]

/-- Where properties refer only to those of lower ranks, of which there are ten, a text comes to
what replacing its references from within makes of it: no reference to a property is left, and
expanding it again changes nothing. Whatever the properties and the text are, no more than ten
rounds are made, each but the last of which changes something, and what fewer rounds come to is not
changed by another one. -/
theorem expand_resolves (properties : Properties) :
    (∀ rank, properties.IsRanked rank 10 → ∀ t : Template, t.IsProper →
      ∃ u, properties.expand t.text = u.text ∧ properties.Resolves t u ∧
        (∀ u', properties.Resolves t u' → u' = u) ∧ u.IsProper ∧
        (∀ name, .reference name ∈ u → properties.get? name = none) ∧
        properties.expand u.text = u.text) ∧
    ∀ s, ∃ k ≤ 10, properties.expand s = String.ofList (properties.substitute^[k] s.toList) ∧
      (∀ j < k, properties.substitute^[j + 1] s.toList ≠ properties.substitute^[j] s.toList) ∧
      (k < 10 → properties.substitute (properties.expand s).toList = (properties.expand s).toList ∧
        properties.expand (properties.expand s) = properties.expand s) := by
  refine ⟨fun rank hranked t ht => ?_, fun s => ?_⟩
  · have hbelow : properties.IsBelow rank maxRounds t := by
      intro name _ hsome
      obtain ⟨value, hvalue⟩ := Option.ne_none_iff_exists'.1 hsome
      exact (hranked name value hvalue).1
    obtain ⟨u, hu, htext⟩ := hranked.exists_iterate ht hbelow
    have hundefined : ∀ name, .reference name ∈ u → properties.get? name = none :=
      fun _ => hu.get?_eq_none
    have hfixed := (Replaces.refl_of_undefined hundefined).substitute_letters (hu.isProper ht)
    refine ⟨u, ?_, hu, fun u' hu' => hu'.unique hu, hu.isProper ht, hundefined, ?_⟩
    · rw [expand, rounds_eq_iterate, Template.toList_text, htext, Template.text]
    · exact expand_of_substitute (by rwa [Template.toList_text])
  · obtain ⟨k, hk, hexpand, hchanges, hends⟩ := exists_rounds properties s
    exact ⟨k, hk, hexpand, hchanges, fun hlt =>
      ⟨hends hlt, expand_of_substitute (hends hlt)⟩⟩

/-- Properties of three ranks, one of which refers to a name that is none of them. -/
def nested : Properties :=
  [("a", "x$\x7bb\x7d$\x7bc\x7d"), ("b", "$\x7bd\x7dy"), ("d", "1")]

/-- Their ranks. -/
def nestedRank (name : String) : Nat := if name = "a" then 2 else if name = "b" then 1 else 0

/-- What one of them is replaced by is not replaced itself until the next round. -/
theorem expand_resolves_nested :
    nested.IsRanked nestedRank 10 ∧
      nested.expand "p$\x7ba\x7dq$\x7bb\x7d" = "px1y$\x7bc\x7dq1y" := by
  have hranked : nested.IsRanked nestedRank 10 := by
    intro name value h
    have hmem : (name, value) ∈ nested := (Entries.get?_eq_some_iff_mem (by decide)).1 h
    simp only [nested, List.mem_cons, List.not_mem_nil, or_false, Prod.mk.injEq] at hmem
    rcases hmem with ⟨rfl, rfl⟩ | ⟨rfl, rfl⟩ | ⟨rfl, rfl⟩
    · refine ⟨by decide, [.letter 'x', .reference "b", .reference "c"], by decide, by decide, ?_⟩
      intro name hname hsome
      simp only [List.mem_cons, reduceCtorEq, Piece.reference.injEq, List.not_mem_nil, or_false,
        false_or] at hname
      rcases hname with rfl | rfl
      · decide
      · exact absurd (by decide) hsome
    · refine ⟨by decide, [.reference "d", .letter 'y'], by decide, by decide, ?_⟩
      intro name hname _
      simp only [List.mem_cons, reduceCtorEq, Piece.reference.injEq, List.not_mem_nil,
        or_false] at hname
      rw [hname]
      decide
    · refine ⟨by decide, [.letter '1'], by decide, by decide, fun name hname => ?_⟩
      simp at hname
  obtain ⟨u, hexpand, -, hunique, -, -, -⟩ := (expand_resolves nested).1 nestedRank hranked
    [.letter 'p', .reference "a", .letter 'q', .reference "b"] (by decide)
  have hd : nested.Resolves [.reference "d", .letter 'y'] [.letter '1', .letter 'y'] := by
    have hone : nested.Resolves [.letter '1'] [.letter '1'] := .letter .nil
    exact .defined (by decide) (by decide) hone (.letter .nil)
  have hb : ∀ t u, nested.Resolves t u →
      nested.Resolves (.reference "b" :: t) (.letter '1' :: .letter 'y' :: u) :=
    fun t u h => .defined (by decide) (by decide) hd h
  have ha : nested.Resolves [.letter 'x', .reference "b", .reference "c"]
      [.letter 'x', .letter '1', .letter 'y', .reference "c"] :=
    .letter (hb _ _ (.undefined (by decide) .nil))
  have hall := hunique _
    (.letter (.defined (by decide) (by decide) ha (.letter (hb _ _ .nil))))
  refine ⟨hranked, ?_⟩
  rw [← hall] at hexpand
  exact hexpand

end BuildFiles.Properties
