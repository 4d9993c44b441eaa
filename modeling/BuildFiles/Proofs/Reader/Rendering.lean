import BuildFiles.Proofs.LongIntegers
import BuildFiles.Proofs.Reader.Spelling

/-!
# Reading what was rendered

Text, whole numbers and lists of these are rendered in a notation that the reader has too: brackets
and quotes are the same, the comma and the space between two items are blanks to the reader, and the
escapes between quotes are among those it takes. So a rendered text spells the datum it was rendered
from, before whatever ends a token, and reading undoes rendering: `read_of_render`. Only a datum
that holds a long integer is not rendered.
-/

namespace BuildFiles

/-- Text, whole numbers and vectors of these, however deep. -/
inductive Datum.IsReadable : Datum → Prop
  | text (s : String) : IsReadable (.str s)
  | int (n : Int) : IsReadable (.int n)
  | vector {ds : List Datum} (h : ∀ d ∈ ds, IsReadable d) : IsReadable (.vector ds)

namespace Reader

variable {d : Datum} {ds : List Datum} {text sep : String} {texts : List String}
  {rest : List Char} {delimiter : Char}

/-- The text spells the datum wherever a token may end after it. -/
def SpellsAlone (d : Datum) (text : String) : Prop :=
  ∀ rest, EndsToken rest → Spells (.form d) (text.toList ++ rest) rest

/-- The text says nothing, and a token may end before it. -/
structure Separates (sep : String) : Prop where
  trivia : ∀ cs, Spells .trivia (sep.toList ++ cs) cs
  endsToken : ∀ cs, EndsToken (sep.toList ++ cs)

theorem separates_comma : Separates ", " where
  trivia cs := .blank (c := ',') rfl (.blank (c := ' ') rfl (.nothing cs))
  endsToken cs := endsToken_cons (c := ',') rfl (' ' :: cs)

/-- After an item comes the closing delimiter or a separator, and either ends a token. -/
theorem endsToken_separated (hsep : Separates sep) (hclose : isTokenChar delimiter = false)
    (texts : List String) :
    EndsToken (texts.flatMap (fun t => sep.toList ++ t.toList) ++ delimiter :: rest) := by
  cases texts with
  | nil => exact endsToken_cons hclose _
  | cons t texts =>
    rw [List.flatMap_cons, List.append_assoc, List.append_assoc]
    exact hsep.endsToken _

/-- Items after the first, each behind a separator. -/
theorem spells_separated (hsep : Separates sep) (hclose : isTokenChar delimiter = false)
    (h : List.Forall₂ SpellsAlone ds texts) :
    Spells (.items ds delimiter)
      (texts.flatMap (fun t => sep.toList ++ t.toList) ++ delimiter :: rest) rest := by
  induction h with
  | nil => exact .closing (.nothing _)
  | @cons d t ds texts hd hds ih =>
    rw [List.flatMap_cons, List.append_assoc, List.append_assoc]
    exact .item (hsep.trivia _) (hd _ (endsToken_separated hsep hclose texts)) ih

theorem toList_intercalate_cons (sep t : String) (texts : List String) :
    (sep.intercalate (t :: texts)).toList =
      t.toList ++ texts.flatMap (fun t => sep.toList ++ t.toList) := by
  induction texts generalizing t with
  | nil => simp
  | cons t' texts ih =>
    rw [String.intercalate_cons_cons, String.toList_append, String.toList_append, ih,
      List.flatMap_cons, List.append_assoc, List.append_assoc]

/-- Items between separators, and the delimiter that closes them. -/
theorem spells_intercalate (hsep : Separates sep) (hclose : isTokenChar delimiter = false)
    (h : List.Forall₂ SpellsAlone ds texts) :
    Spells (.items ds delimiter) ((sep.intercalate texts).toList ++ delimiter :: rest) rest := by
  cases h with
  | nil => exact .closing (.nothing _)
  | @cons d t ds texts hd hds =>
    rw [toList_intercalate_cons, List.append_assoc]
    exact .item (.nothing _) (hd _ (endsToken_separated hsep hclose texts))
      (spells_separated hsep hclose hds)

theorem exists_renderAll (h : ∀ d ∈ ds, ∃ text, d.render = .ok text ∧ SpellsAlone d text) :
    ∃ texts, Datum.renderAll ds = .ok texts ∧ List.Forall₂ SpellsAlone ds texts := by
  induction ds with
  | nil => exact ⟨[], rfl, .nil⟩
  | cons d ds ih =>
    obtain ⟨text, htext, hd⟩ := h d List.mem_cons_self
    obtain ⟨texts, htexts, hds⟩ := ih fun d' hd' => h d' (List.mem_cons_of_mem d hd')
    refine ⟨text :: texts, ?_, .cons hd hds⟩
    rw [Datum.renderAll, htext, htexts]
    rfl

/-- By induction on the datum: what is rendered spells what it was rendered from. -/
theorem exists_render (h : d.IsReadable) (hshort : d.holdsLongInteger = false) :
    ∃ text, d.render = .ok text ∧ SpellsAlone d text := by
  induction h with
  | text s => exact ⟨Datum.quote s, rfl, fun rest _ => .text s rest⟩
  | int n =>
    exact ⟨toString n, Datum.written_eq_ok_iff.2 ⟨hshort, rfl⟩,
      fun rest hrest => .token (.int hshort) hrest⟩
  | @vector ds h ih =>
    have hitems : ∀ d ∈ ds, d.holdsLongInteger = false := Datum.anyHoldsLong_eq_false_iff.1 hshort
    obtain ⟨texts, htexts, hds⟩ := exists_renderAll fun d hd => ih d hd (hitems d hd)
    refine ⟨"[" ++ ", ".intercalate texts ++ "]", ?_, fun rest _ => ?_⟩
    · rw [Datum.render, htexts]
      rfl
    · rw [String.toList_append, String.toList_append, List.append_assoc, List.append_assoc]
      exact .vector (spells_intercalate separates_comma rfl hds)

/-- By induction on the datum: a long integer is all that keeps it from being rendered. -/
theorem failsBy_render (h : d.IsReadable) : Except.FailsBy (· = .longInteger) d.render := by
  induction h with
  | text s => exact .ok _
  | int n => exact Datum.failsBy_written (.int n)
  | @vector ds h ih =>
    have hall : Except.FailsBy (· = .longInteger) (Datum.renderAll ds) := by
      clear h
      induction ds with
      | nil => exact .ok _
      | cons d ds ihds =>
        obtain ⟨hd, hds⟩ := List.forall_mem_cons.1 ih
        exact hd.bind fun _ => (ihds hds).bind fun _ => .ok _
    exact hall.bind fun _ => .ok _

theorem render_eq_longInteger (h : d.IsReadable) (hlong : d.holdsLongInteger = true) :
    d.render = .error .longInteger := by
  cases hrender : d.render with
  | ok text =>
    rw [Datum.holdsLongInteger_of_render hrender] at hlong
    cases hlong
  | error e => rw [failsBy_render h e hrender]

/-- What spells a datum up to its end is read as that datum, and as nothing else. -/
theorem read_of_spellsAlone (h : SpellsAlone d text) (features : List String) :
    first text features = .ok d ∧ forms text features = ([d], none) := by
  have hform : Spells (.form d) text.toList [] := by
    have := h [] (fun c hc => nomatch hc)
    rwa [List.append_nil] at this
  have hfirst : advance features [] text.toList = .ok (some (d, [])) :=
    isRead_of_spells hform []
  have hlast : advance features [] [] = .ok none := advance_of_end rfl
  refine ⟨by rw [first, hfirst], ?_⟩
  rw [forms, formsFrom_of_some hfirst, formsFrom_of_none hlast]
  rfl

/-- Text, whole numbers and vectors of these are rendered, and what is rendered is read as the same
datum and as nothing else, whatever features are on. Those that hold a long integer are not
rendered. -/
theorem read_of_render (h : d.IsReadable) :
    (d.holdsLongInteger = false → ∃ text, d.render = .ok text ∧
      ∀ features, first text features = .ok d ∧ forms text features = ([d], none)) ∧
      (d.holdsLongInteger = true → d.render = .error .longInteger) := by
  refine ⟨fun hshort => ?_, render_eq_longInteger h⟩
  obtain ⟨text, htext, hd⟩ := exists_render h hshort
  exact ⟨text, htext, read_of_spellsAlone hd⟩

/-- A negative number, an empty vector, an empty text, and a text of escapes, a character that is
written as it stands, and what separates and closes outside of quotes. -/
def nestedVector : Datum :=
  .vector [.int (-7), .vector [], .vector [.str "", .str "\"\\\n\x01, ]"]]

theorem isReadable_nestedVector : nestedVector.IsReadable := by
  refine .vector fun d hd => ?_
  simp only [List.mem_cons, List.not_mem_nil, or_false] at hd
  rcases hd with rfl | rfl | rfl
  · exact .int _
  · exact .vector fun d hd => nomatch hd
  · refine .vector fun d hd => ?_
    rcases List.mem_pair.1 hd with rfl | rfl
    · exact .text _
    · exact .text _

theorem read_of_render_nestedVector :
    nestedVector.IsReadable ∧ nestedVector.holdsLongInteger = false ∧
      ∃ text, nestedVector.render = .ok text ∧
        ∀ features, first text features = .ok nestedVector ∧
          forms text features = ([nestedVector], none) :=
  ⟨isReadable_nestedVector, by decide, (read_of_render isReadable_nestedVector).1 (by decide)⟩

/-- An integer that reading cannot give back, since it has no expression. -/
theorem render_leastLong :
    (Datum.int Datum.leastLong).IsReadable ∧
      (Datum.int Datum.leastLong).render = .error .longInteger :=
  ⟨.int _, render_eq_longInteger (.int _) Datum.isLong_leastLong⟩

end Reader

end BuildFiles
