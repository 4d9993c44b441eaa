import BuildFiles.Proofs.Reader.Rendering
import BuildFiles.Rule.Target

/-!
# What rendering keeps

Two data have one expression exactly if they are equal once lists are taken as vectors and paths as
their texts, which is what `Datum.expressed` makes of them. An expression ends where it is seen to
end, whatever follows: a word before the next delimiter, a text at its closing quote, and a bracket
at the delimiter that matches it, since the same holds of each part between its separators
(`isApart_of_expresses`, by induction on the expression). From this, the text of a target gives back
its rule and its attributes: `Target.render_eq_iff`.
-/

namespace BuildFiles

namespace Datum

mutual

/-- The datum with vectors for lists and texts for paths. -/
def expressed : Datum → Datum
  | .path p => .str p.toText
  | .list xs => .vector (expressedAll xs)
  | .vector xs => .vector (expressedAll xs)
  | .map es => .map (expressedEntries es)
  | d => d

/-- Each datum with vectors for lists and texts for paths. -/
def expressedAll : List Datum → List Datum
  | [] => []
  | x :: xs => expressed x :: expressedAll xs

/-- The keys and the values with vectors for lists and texts for paths. -/
def expressedEntries : List (Datum × Datum) → List (Datum × Datum)
  | [] => []
  | (k, v) :: es => (expressed k, expressed v) :: expressedEntries es

end

/-- The items of a datum are put in their expressed forms one by one. -/
theorem expressedAll_eq_map (xs : List Datum) : expressedAll xs = xs.map expressed := by
  induction xs with
  | nil => rfl
  | cons x xs ih => rw [expressedAll, ih, List.map_cons]

/-- The entries of a map are put in their expressed forms one by one, keys and values. -/
theorem expressedEntries_eq_map (es : List (Datum × Datum)) :
    expressedEntries es = es.map fun e => (e.1.expressed, e.2.expressed) := by
  induction es with
  | nil => rfl
  | cons e es ih => rw [expressedEntries, ih, List.map_cons]

mutual

/-- The expression does not tell a list from a vector or a path from its text. -/
theorem render_expressed : ∀ d : Datum, d.expressed.render = d.render
  | .path p => rfl
  | .list xs => by rw [expressed, render, render, renderAll_expressedAll xs]
  | .vector xs => by rw [expressed, render, renderAll_expressedAll xs, render]
  | .map es => by rw [expressed, render, renderEntries_expressedEntries es, render]
  | .nil | .bool _ | .int _ | .float _ | .ratio _ | .str _ | .symbol .. | .keyword _ | .set _
  | .regex _ | .tagged .. | .splice _ | .bare _ | .named _ | .call .. => rfl

/-- Items look the same in their expressed forms. -/
theorem renderAll_expressedAll : ∀ xs : List Datum, renderAll (expressedAll xs) = renderAll xs
  | [] => rfl
  | x :: xs => by
    rw [expressedAll, renderAll, render_expressed x, renderAll_expressedAll xs, renderAll]

/-- Entries do as well. -/
theorem renderEntries_expressedEntries : ∀ es : List (Datum × Datum),
    renderEntries (expressedEntries es) = renderEntries es
  | [] => rfl
  | (k, v) :: es => by
    rw [expressedEntries, renderEntries, render_expressed k, render_expressed v,
      renderEntries_expressedEntries es, renderEntries]

end

/-- The arguments of a call render as their expressed forms do. -/
theorem renderArguments_expressed (es : List (String × Datum)) :
    renderArguments (es.map fun e => (e.1, e.2.expressed)) = renderArguments es := by
  induction es with
  | nil => rfl
  | cons e es ih => rw [List.map_cons, renderArguments, render_expressed, ih, renderArguments]

/-- Truth values, whole numbers, texts and paths, and lists, vectors and maps of these, however
deep. -/
inductive IsWritable : Datum → Prop
  | bool (b : Bool) : IsWritable (.bool b)
  | int (n : Int) : IsWritable (.int n)
  | text (s : String) : IsWritable (.str s)
  | path (p : Path) : IsWritable (.path p)
  | list {xs : List Datum} (h : ∀ x ∈ xs, IsWritable x) : IsWritable (.list xs)
  | vector {xs : List Datum} (h : ∀ x ∈ xs, IsWritable x) : IsWritable (.vector xs)
  | map {es : List (Datum × Datum)} (hkeys : ∀ e ∈ es, IsWritable e.1)
      (h : ∀ e ∈ es, IsWritable e.2) : IsWritable (.map es)

end Datum

open Reader

variable {α β : Type} {P : α → String → Prop} {Q : β → String → Prop} {d d' : Datum}
  {r r' : List Char} {s t t' sep mark : String} {closer : Char}

/-! ## Texts that are told apart -/

/-- Of the texts that `P` gives, `t` is the only one that a text can start with where it starts with
`t` and a token may end after it, and it stands for `a` alone. -/
def IsApart (P : α → String → Prop) (a : α) (t : String) : Prop :=
  ∀ a' t' r r', P a' t' → EndsToken r → EndsToken r' → t.toList ++ r = t'.toList ++ r' →
    a = a' ∧ r = r'

/-- Two texts about a mark. -/
def IsPair (P : α → String → Prop) (Q : β → String → Prop) (mark : String) (e : α × β)
    (text : String) : Prop :=
  ∃ s t, P e.1 s ∧ Q e.2 t ∧ text = s ++ mark ++ t

/-- The delimiter does not start any of the texts that `P` gives. -/
def IsOpened (P : α → String → Prop) (closer : Char) : Prop :=
  ∀ ⦃a t⦄, P a t → ∀ cs r, closer :: r ≠ t.toList ++ cs

/-- A pair does not start with the closing bracket if its first part does not. -/
theorem isOpened_pair (h : IsOpened P closer) : IsOpened (IsPair P Q mark) closer := by
  rintro a _ ⟨s, t, hs, -, rfl⟩ cs r
  rw [String.toList_append, String.toList_append, List.append_assoc, List.append_assoc]
  exact h hs _ r

/-- Pairs are told apart if the parts are and the mark between them ends a token. -/
theorem isApart_pair {a : α} {b : β} (hmark : ∀ cs, EndsToken (mark.toList ++ cs))
    (ha : IsApart P a s) (hb : IsApart Q b t) :
    IsApart (IsPair P Q mark) (a, b) (s ++ mark ++ t) := by
  rintro ⟨a', b'⟩ _ r r' ⟨s', t', hs', ht', rfl⟩ hr hr' heq
  simp only [String.toList_append, List.append_assoc] at heq
  obtain ⟨rfl, hrest⟩ := ha a' s' _ _ hs' (hmark _) (hmark _) heq
  obtain ⟨rfl, rfl⟩ := hb b' t' r r' ht' hr hr' (List.append_cancel_left hrest)
  exact ⟨rfl, rfl⟩

/-- No closing bracket belongs to a token. -/
theorem isTokenChar_closer (h : closer ∈ [')', ']', '}']) : isTokenChar closer = false := by
  simp only [List.mem_cons, List.not_mem_nil, or_false] at h
  rcases h with rfl | rfl | rfl <;> rfl

/-- The separator stands between parts that the delimiter closes. -/
structure Parts (sep : String) (closer : Char) : Prop extends Separates sep where
  comma : ∃ cs, sep.toList = ',' :: cs
  closes : closer ∈ [')', ']', '}']

/-- A comma parts items before any closing bracket. -/
theorem parts_comma (h : closer ∈ [')', ']', '}']) : Parts ", " closer where
  toSeparates := separates_comma
  comma := ⟨_, rfl⟩
  closes := h

namespace Parts

/-- The text of a separator does not start with the closing bracket, so the end is seen. -/
theorem ne (h : Parts sep closer) (cs r : List Char) : closer :: r ≠ sep.toList ++ cs := by
  obtain ⟨tail, htail⟩ := h.comma
  have hcloses := h.closes
  rw [htail]
  intro heq
  obtain ⟨rfl, -⟩ := List.cons.inj heq
  revert hcloses
  decide

/-- A token may end after a part. -/
theorem endsToken_after (h : Parts sep closer) (texts : List String) (r : List Char) :
    EndsToken (texts.flatMap (fun t => sep.toList ++ t.toList) ++ closer :: r) :=
  endsToken_separated h.toSeparates (isTokenChar_closer h.closes) texts

/-- Parts after the first, each behind a separator, are told apart by their texts: a separator or
the closing delimiter is next, and the two do not start alike. -/
theorem separated_inj (h : Parts sep closer) {ps ps' : List (α × String)}
    (hps : ∀ p ∈ ps, IsApart P p.1 p.2) (hps' : ∀ p ∈ ps', P p.1 p.2)
    (heq : (ps.map Prod.snd).flatMap (fun t => sep.toList ++ t.toList) ++ closer :: r =
      (ps'.map Prod.snd).flatMap (fun t => sep.toList ++ t.toList) ++ closer :: r') :
    ps.map Prod.fst = ps'.map Prod.fst ∧ r = r' := by
  induction ps generalizing ps' with
  | nil =>
    cases ps' with
    | nil => exact ⟨rfl, (List.cons.inj heq).2⟩
    | cons p' ps' =>
      rw [List.map_cons, List.flatMap_cons, List.append_assoc, List.append_assoc] at heq
      exact absurd heq (h.ne _ _)
  | cons p ps ih =>
    cases ps' with
    | nil =>
      rw [List.map_cons, List.flatMap_cons, List.append_assoc, List.append_assoc] at heq
      exact absurd heq.symm (h.ne _ _)
    | cons p' ps' =>
      obtain ⟨hp, hps⟩ := List.forall_mem_cons.1 hps
      obtain ⟨hp', hps'⟩ := List.forall_mem_cons.1 hps'
      simp only [List.map_cons, List.flatMap_cons, List.append_assoc] at heq
      obtain ⟨hfirst, hrest⟩ := hp _ _ _ _ hp' (h.endsToken_after _ _)
        (h.endsToken_after _ _) (List.append_cancel_left heq)
      obtain ⟨hothers, hend⟩ := ih hps hps' hrest
      exact ⟨by rw [List.map_cons, List.map_cons, hfirst, hothers], hend⟩

/-- Parts between separators are told apart by their texts, up to the delimiter that closes them. -/
theorem intercalate_inj (h : Parts sep closer) (hopen : IsOpened P closer)
    {ps ps' : List (α × String)}
    (hps : ∀ p ∈ ps, P p.1 p.2 ∧ IsApart P p.1 p.2) (hps' : ∀ p ∈ ps', P p.1 p.2)
    (heq : (sep.intercalate (ps.map Prod.snd)).toList ++ closer :: r =
      (sep.intercalate (ps'.map Prod.snd)).toList ++ closer :: r') :
    ps.map Prod.fst = ps'.map Prod.fst ∧ r = r' := by
  cases ps with
  | nil =>
    cases ps' with
    | nil => exact ⟨rfl, (List.cons.inj heq).2⟩
    | cons p' ps' =>
      rw [List.map_cons, toList_intercalate_cons, List.append_assoc] at heq
      exact absurd heq (hopen (List.forall_mem_cons.1 hps').1 _ _)
  | cons p ps =>
    cases ps' with
    | nil =>
      rw [List.map_cons, toList_intercalate_cons, List.append_assoc] at heq
      exact absurd heq.symm (hopen (List.forall_mem_cons.1 hps).1.1 _ _)
    | cons p' ps' =>
      obtain ⟨⟨-, hp⟩, hps⟩ := List.forall_mem_cons.1 hps
      obtain ⟨hp', hps'⟩ := List.forall_mem_cons.1 hps'
      simp only [List.map_cons, toList_intercalate_cons, List.append_assoc] at heq
      obtain ⟨hfirst, hrest⟩ := hp _ _ _ _ hp' (h.endsToken_after _ _)
        (h.endsToken_after _ _) heq
      obtain ⟨hothers, hend⟩ := separated_inj h (fun q hq => (hps q hq).2) hps' hrest
      exact ⟨by rw [List.map_cons, List.map_cons, hfirst, hothers], hend⟩

end Parts

/-- Two tokens that are followed by something else are equal if the texts are. -/
theorem token_inj {u u' : List Char} (hu : ∀ c ∈ u, isTokenChar c = true)
    (hu' : ∀ c ∈ u', isTokenChar c = true) (hr : EndsToken r) (hr' : EndsToken r')
    (heq : u ++ r = u' ++ r') : u = u' ∧ r = r' := by
  have htoken := congrArg token heq
  rw [token_append_of_endsToken hu hr, token_append_of_endsToken hu' hr'] at htoken
  subst htoken
  exact ⟨rfl, List.append_cancel_left heq⟩

/-! ## Expressions -/

namespace Datum

/-- The word that a datum is written as, if it is written as one. -/
def word? : Datum → Option String
  | .bool b => some (if b then "True" else "False")
  | .int n => some (toString n)
  | _ => none

/-- Words are made of the characters of tokens, and are not empty. -/
theorem isTokenChar_of_word? (h : d.word? = some t) :
    t.toList ≠ [] ∧ ∀ c ∈ t.toList, isTokenChar c = true := by
  cases d with
  | bool b =>
    cases h
    refine ⟨by cases b <;> decide, List.all_eq_true.1 ?_⟩
    cases b <;> decide
  | int n =>
    cases h
    refine ⟨fun hnil => ?_, fun c => isTokenChar_of_mem_toString⟩
    have := startsNumber_toString n
    rw [hnil] at this
    cases this
  | _ => cases h

/-- A truth value is not written as a number is. -/
theorem word?_bool_ne (b : Bool) (n : Int) : (Datum.bool b).word? ≠ (Datum.int n).word? := by
  intro h
  have hn := number?_toString n
  rw [← Option.some.inj h] at hn
  split_ifs at hn <;> cases b <;> cases hn

/-- No two data have one word: numerals are told apart by their values. -/
theorem word?_inj (h : d.word? = some t) (h' : d'.word? = some t) : d = d' := by
  have heq := h.trans h'.symm
  cases d with
  | bool b =>
    cases d' with
    | bool b' => cases b <;> cases b' <;> first | rfl | exact absurd heq (by decide)
    | int n => exact absurd heq (word?_bool_ne b n)
    | _ => cases h'
  | int n =>
    cases d' with
    | bool b => exact absurd heq.symm (word?_bool_ne b n)
    | int n' => rw [toString_injective (Option.some.inj heq)]
    | _ => cases h'
  | _ => cases h

/-- The entry of a key and a value, and its expression. -/
def entryOf (p : (Datum × String) × (Datum × String)) : (Datum × Datum) × String :=
  ((p.1.1, p.2.1), p.1.2 ++ " : " ++ p.2.2)

/-- The expressions of data that hold no lists and no paths. -/
inductive Expresses : Datum → String → Prop
  | word {d : Datum} {t : String} (h : d.word? = some t) : Expresses d t
  | text (s : String) : Expresses (.str s) (quote s)
  | vector {ps : List (Datum × String)} (h : ∀ p ∈ ps, Expresses p.1 p.2) :
      Expresses (.vector (ps.map Prod.fst)) ("[" ++ ", ".intercalate (ps.map Prod.snd) ++ "]")
  | map {ps : List ((Datum × String) × (Datum × String))} (hkeys : ∀ p ∈ ps, Expresses p.1.1 p.1.2)
      (h : ∀ p ∈ ps, Expresses p.2.1 p.2.2) :
      Expresses (.map ((ps.map entryOf).map Prod.fst))
        ("\x7b" ++ ", ".intercalate ((ps.map entryOf).map Prod.snd) ++ "\x7d")

/-- An entry is written as a pair of its key and its value. -/
theorem isPair_entryOf {p : (Datum × String) × (Datum × String)} (hkey : Expresses p.1.1 p.1.2)
    (h : Expresses p.2.1 p.2.2) :
    IsPair Expresses Expresses " : " (entryOf p).1 (entryOf p).2 :=
  ⟨_, _, hkey, h, rfl⟩

/-- The delimiter that the expression of a datum opens with, if it opens with one. -/
def opening? : Datum → Option Char
  | .str _ => some '"'
  | .vector _ => some '['
  | .map _ => some '{'
  | _ => none

/-- What is a word does not start with a bracket or a quote. -/
theorem opening?_of_word? (h : d.word? = some t) : d.opening? = none := by
  cases d <;> first | rfl | cases h

/-- The first character of an expression tells how it opens. -/
theorem Expresses.exists_cons (h : Expresses d t) :
    ∃ c cs, t.toList = c :: cs ∧ d.opening? = if isTokenChar c then none else some c := by
  cases h with
  | word h =>
    obtain ⟨hne, ht⟩ := isTokenChar_of_word? h
    obtain ⟨c, cs, hcs⟩ := List.exists_cons_of_ne_nil hne
    refine ⟨c, cs, hcs, ?_⟩
    rw [opening?_of_word? h, if_pos (ht c (by simp [hcs]))]
  | text s => exact ⟨_, _, toList_quote s, rfl⟩
  | vector h => exact ⟨'[', _, by rw [String.toList_append, String.toList_append]; rfl, rfl⟩
  | map hkeys h => exact ⟨'{', _, by rw [String.toList_append, String.toList_append]; rfl, rfl⟩

/-- Data whose expressions start alike are of one kind. -/
theorem Expresses.opening?_eq (h : Expresses d t) (h' : Expresses d' t')
    (heq : t.toList ++ r = t'.toList ++ r') : d.opening? = d'.opening? := by
  obtain ⟨c, cs, ht, hd⟩ := h.exists_cons
  obtain ⟨c', cs', ht', hd'⟩ := h'.exists_cons
  rw [ht, ht'] at heq
  rw [hd, hd', (List.cons.inj heq).1]

/-- What opens an expression closes none. -/
theorem not_mem_closers {c : Char} (h : d.opening? = some c) : c ∉ [')', ']', '}'] := by
  unfold opening? at h
  split at h <;> cases h <;> decide

/-- No expression starts as a bracket is closed. -/
theorem isOpened_expresses (hcloser : closer ∈ [')', ']', '}']) : IsOpened Expresses closer := by
  intro d t h cs r heq
  obtain ⟨c, tail, ht, hd⟩ := h.exists_cons
  rw [ht] at heq
  obtain ⟨rfl, -⟩ := List.cons.inj heq
  rw [if_neg (by rw [isTokenChar_closer hcloser]; decide)] at hd
  exact not_mem_closers hd hcloser

/-- Texts are told apart by their escaped forms: a quote within is escaped, so that the first one
that is not ends the text. -/
theorem escaped_inj {cs cs' : List Char}
    (heq : cs.flatMap escapedChar ++ '"' :: r = cs'.flatMap escapedChar ++ '"' :: r') :
    cs = cs' ∧ r = r' := by
  -- both are read up to their closing quotes
  have hbody := congrArg (stringBody []) heq
  rw [stringBody_quoted, stringBody_quoted] at hbody
  cases hbody
  exact ⟨rfl, rfl⟩

/-- The mark between a key and a value ends a token. -/
theorem endsToken_colon (cs : List Char) : EndsToken (" : ".toList ++ cs) :=
  endsToken_cons (c := ' ') rfl _

/-- Data are told apart by their expressions, whatever follows. By induction on the expression:
those that start alike are of one kind, and for each kind the parts are told apart. -/
theorem isApart_of_expresses (h : Expresses d t) : IsApart Expresses d t := by
  induction h with
  | word h =>
    intro d' t' r r' h' hr hr' heq
    have hopening := (Expresses.word h).opening?_eq h' heq
    rw [opening?_of_word? h] at hopening
    cases h' with
    | word h' =>
      obtain ⟨ht, rfl⟩ :=
        token_inj (isTokenChar_of_word? h).2 (isTokenChar_of_word? h').2 hr hr' heq
      exact ⟨word?_inj h (String.toList_inj.1 ht ▸ h'), rfl⟩
    | _ => cases hopening
  | text s =>
    intro d' t' r r' h' hr hr' heq
    have hopening := (Expresses.text s).opening?_eq h' heq
    cases h' with
    | word h' =>
      rw [opening?_of_word? h'] at hopening
      cases hopening
    | text s' =>
      rw [toList_quote, toList_quote, List.cons_append, List.cons_append, List.append_assoc,
        List.append_assoc] at heq
      obtain ⟨hs, rfl⟩ := escaped_inj (List.cons.inj heq).2
      rw [String.toList_inj.1 hs]
      exact ⟨rfl, rfl⟩
    | _ => cases hopening
  | vector h ih =>
    intro d' t' r r' h' hr hr' heq
    have hopening := (Expresses.vector h).opening?_eq h' heq
    cases h' with
    | word h' =>
      rw [opening?_of_word? h'] at hopening
      cases hopening
    | vector h' =>
      simp only [String.toList_append, List.append_assoc] at heq
      obtain ⟨hitems, rfl⟩ := (parts_comma (by decide)).intercalate_inj
        (isOpened_expresses (by decide)) (fun p hp => ⟨h p hp, ih p hp⟩) h' (List.cons.inj heq).2
      rw [hitems]
      exact ⟨rfl, rfl⟩
    | _ => cases hopening
  | map hkeys h ihkeys ih =>
    intro d' t' r r' h' hr hr' heq
    have hopening := (Expresses.map hkeys h).opening?_eq h' heq
    cases h' with
    | word h' =>
      rw [opening?_of_word? h'] at hopening
      cases hopening
    | map hkeys' h' =>
      simp only [String.toList_append, List.append_assoc] at heq
      obtain ⟨hentries, rfl⟩ := (parts_comma (by decide)).intercalate_inj
        (isOpened_pair (isOpened_expresses (by decide)))
        (List.forall_mem_map.2 fun p hp => ⟨isPair_entryOf (hkeys p hp) (h p hp),
          isApart_pair endsToken_colon (ihkeys p hp) (ih p hp)⟩)
        (List.forall_mem_map.2 fun p hp => isPair_entryOf (hkeys' p hp) (h' p hp))
        (List.cons.inj heq).2
      rw [hentries]
      exact ⟨rfl, rfl⟩
    | _ => cases hopening

/-! ## Rendering -/

/-- Items that can be rendered are, each to an expression of its form. -/
theorem exists_renderAll {xs : List Datum}
    (h : ∀ x ∈ xs, ∃ t, x.render = .ok t ∧ Expresses x.expressed t) :
    ∃ ps : List (Datum × String), renderAll xs = .ok (ps.map Prod.snd) ∧
      ps.map Prod.fst = xs.map expressed ∧ ∀ p ∈ ps, Expresses p.1 p.2 := by
  induction xs with
  | nil => exact ⟨[], rfl, rfl, fun _ h => nomatch h⟩
  | cons x xs ih =>
    obtain ⟨⟨t, ht, hx⟩, hxs⟩ := List.forall_mem_cons.1 h
    obtain ⟨ps, hps, hfst, hall⟩ := ih hxs
    refine ⟨(x.expressed, t) :: ps, ?_, ?_, List.forall_mem_cons.2 ⟨hx, hall⟩⟩
    · rw [renderAll, ht, hps]
      rfl
    · rw [List.map_cons, List.map_cons, hfst]

/-- Entries whose keys and values can be rendered are, each to a pair of expressions of their
forms. -/
theorem exists_renderEntries {es : List (Datum × Datum)}
    (hkeys : ∀ e ∈ es, ∃ t, e.1.render = .ok t ∧ Expresses e.1.expressed t)
    (h : ∀ e ∈ es, ∃ t, e.2.render = .ok t ∧ Expresses e.2.expressed t) :
    ∃ ps : List ((Datum × String) × (Datum × String)),
      renderEntries es = .ok ((ps.map entryOf).map Prod.snd) ∧
        (ps.map entryOf).map Prod.fst = es.map (fun e => (e.1.expressed, e.2.expressed)) ∧
        (∀ p ∈ ps, Expresses p.1.1 p.1.2) ∧ ∀ p ∈ ps, Expresses p.2.1 p.2.2 := by
  induction es with
  | nil => exact ⟨[], rfl, rfl, by simp, by simp⟩
  | cons e es ih =>
    obtain ⟨⟨s, hs, hkey⟩, hkeys⟩ := List.forall_mem_cons.1 hkeys
    obtain ⟨⟨t, ht, hvalue⟩, h⟩ := List.forall_mem_cons.1 h
    obtain ⟨ps, hps, hfst, hallkeys, hall⟩ := ih hkeys h
    refine ⟨((e.1.expressed, s), (e.2.expressed, t)) :: ps, ?_, ?_,
      List.forall_mem_cons.2 ⟨hkey, hallkeys⟩, List.forall_mem_cons.2 ⟨hvalue, hall⟩⟩
    · rw [renderEntries, hs, ht, hps]
      rfl
    · rw [List.map_cons, List.map_cons, List.map_cons, hfst]
      rfl

/-- What can be written is rendered, as an expression of what it is taken for, unless it holds a
long integer. -/
theorem exists_render_of_isWritable (h : d.IsWritable) (hshort : d.holdsLongInteger = false) :
    ∃ t, d.render = .ok t ∧ Expresses d.expressed t := by
  induction h with
  | bool b => exact ⟨_, rfl, .word rfl⟩
  | int n => exact ⟨_, written_eq_ok_iff.2 ⟨hshort, rfl⟩, .word rfl⟩
  | text s => exact ⟨_, rfl, .text s⟩
  | path p => exact ⟨_, rfl, .text p.toText⟩
  | @list xs h ih | @vector xs h ih =>
    have hitems : ∀ x ∈ xs, x.holdsLongInteger = false := anyHoldsLong_eq_false_iff.1 hshort
    obtain ⟨ps, hps, hfst, hall⟩ := exists_renderAll fun x hx => ih x hx (hitems x hx)
    refine ⟨_, by rw [render, hps]; rfl, ?_⟩
    rw [expressed, expressedAll_eq_map, ← hfst]
    exact .vector hall
  | @map es hkeys h ihkeys ih =>
    have hentries := anyEntryHoldsLong_eq_false_iff.1 hshort
    obtain ⟨ps, hps, hfst, hallkeys, hall⟩ := exists_renderEntries
      (fun e he => ihkeys e he (hentries e he).1) fun e he => ih e he (hentries e he).2
    refine ⟨_, by rw [render, hps]; rfl, ?_⟩
    rw [expressed, expressedEntries_eq_map, ← hfst]
    exact .map hallkeys hall

/-- Rendering items fails as rendering one of them does. -/
theorem failsBy_renderAll {P : Fault → Prop} {xs : List Datum}
    (h : ∀ x ∈ xs, Except.FailsBy P x.render) : Except.FailsBy P (renderAll xs) := by
  induction xs with
  | nil => exact .ok _
  | cons x xs ih =>
    obtain ⟨hx, hxs⟩ := List.forall_mem_cons.1 h
    exact hx.bind fun _ => (ih hxs).bind fun _ => .ok _

/-- Rendering entries fails as rendering a key or a value does. -/
theorem failsBy_renderEntries {P : Fault → Prop} {es : List (Datum × Datum)}
    (hkeys : ∀ e ∈ es, Except.FailsBy P e.1.render)
    (h : ∀ e ∈ es, Except.FailsBy P e.2.render) : Except.FailsBy P (renderEntries es) := by
  induction es with
  | nil => exact .ok _
  | cons e es ih =>
    obtain ⟨hkey, hkeys⟩ := List.forall_mem_cons.1 hkeys
    obtain ⟨hvalue, h⟩ := List.forall_mem_cons.1 h
    exact hkey.bind fun _ => hvalue.bind fun _ => (ih hkeys h).bind fun _ => .ok _

/-- A long integer is all that keeps what can be written from being rendered. -/
theorem failsBy_render_of_isWritable (h : d.IsWritable) :
    Except.FailsBy (· = .longInteger) d.render := by
  induction h with
  | bool _ | text _ | path _ => exact .ok _
  | int n => exact failsBy_written (.int n)
  | list h ih | vector h ih => exact (failsBy_renderAll ih).bind fun _ => .ok _
  | map hkeys h ihkeys ih => exact (failsBy_renderEntries ihkeys ih).bind fun _ => .ok _

end Datum

/-! ## Targets -/

/-- Letters, digits and underscores, of which no digit comes first. -/
def isIdentifier (s : String) : Bool :=
  s.toList.all (fun c => c.isAlphanum || c == '_') &&
    s.toList.head?.any fun c => c.isAlpha || c == '_'

/-- A name that is written as it stands. -/
def IsNamed (n text : String) : Prop := n = text ∧ isIdentifier n = true

/-- Identifiers are tokens. -/
theorem isTokenChar_of_isIdentifier (h : isIdentifier s = true) :
    ∀ c ∈ s.toList, isTokenChar c = true := by
  intro c hc
  rcases Bool.or_eq_true_iff.1 (List.all_eq_true.1 (Bool.and_eq_true_iff.1 h).1 c hc) with h | h
  · exact isTokenChar_of_isAlphanum h
  · rw [eq_of_beq h]
    rfl

/-- An identifier before something else is told from others. -/
theorem isApart_name {n : String} (h : isIdentifier n = true) : IsApart IsNamed n n := by
  rintro n' _ r r' ⟨rfl, h'⟩ hr hr' heq
  obtain ⟨hn, rfl⟩ := token_inj (isTokenChar_of_isIdentifier h) (isTokenChar_of_isIdentifier h')
    hr hr' heq
  exact ⟨String.toList_inj.1 hn, rfl⟩

/-- No name starts with a closing bracket. -/
theorem isOpened_named (hcloser : closer ∈ [')', ']', '}']) : IsOpened IsNamed closer := by
  rintro n _ ⟨rfl, h⟩ cs r heq
  rcases hn : n.toList with _ | ⟨c, tail⟩
  · rw [isIdentifier, hn] at h
    cases h
  · have hc := isTokenChar_of_isIdentifier h c (by simp [hn])
    rw [hn] at heq
    rw [← (List.cons.inj heq).1, isTokenChar_closer hcloser] at hc
    cases hc

/-- The mark between a name and a value ends a token. -/
theorem endsToken_equals (cs : List Char) : EndsToken (" = ".toList ++ cs) :=
  endsToken_cons (c := ' ') rfl _

/-- A comma and a new line part arguments. -/
theorem parts_arguments : Parts ",\n\t" ')' where
  trivia _ := .blank (c := ',') rfl (.blank (c := '\n') rfl (.blank (c := '\t') rfl (.nothing _)))
  endsToken _ := endsToken_cons (c := ',') rfl _
  comma := ⟨_, rfl⟩
  closes := by decide

/-- Arguments with identifiers for names and short writable values are rendered, each to an
expression. -/
theorem exists_renderArguments {es : List (String × Datum)}
    (h : ∀ e ∈ es, isIdentifier e.1 = true ∧ e.2.IsWritable)
    (hshort : Datum.anyArgumentHoldsLong es = false) :
    ∃ ps : List ((String × Datum) × String), Datum.renderArguments es = .ok (ps.map Prod.snd) ∧
      ps.map Prod.fst = es.map (fun e => (e.1, e.2.expressed)) ∧
      ∀ p ∈ ps, IsPair IsNamed Datum.Expresses " = " p.1 p.2 ∧
        IsApart (IsPair IsNamed Datum.Expresses " = ") p.1 p.2 := by
  induction es with
  | nil => exact ⟨[], rfl, rfl, fun _ h => nomatch h⟩
  | cons e es ih =>
    obtain ⟨⟨hname, hvalue⟩, hes⟩ := List.forall_mem_cons.1 h
    obtain ⟨hfirst, hrest⟩ := Bool.or_eq_false_iff.1 hshort
    obtain ⟨t, ht, hd⟩ := Datum.exists_render_of_isWritable hvalue hfirst
    obtain ⟨ps, hps, hfst, hall⟩ := ih hes hrest
    refine ⟨((e.1, e.2.expressed), e.1 ++ " = " ++ t) :: ps, ?_, ?_, List.forall_mem_cons.2
      ⟨⟨⟨e.1, t, ⟨rfl, hname⟩, hd, rfl⟩, isApart_pair endsToken_equals (isApart_name hname)
        (Datum.isApart_of_expresses hd)⟩, hall⟩⟩
    · rw [Datum.renderArguments, ht, hps]
      rfl
    · rw [List.map_cons, List.map_cons, hfst]

namespace Target

/-- The names of the attributes are identifiers, and their values can be written. -/
def IsWritable (t : Target) : Prop :=
  ∀ e ∈ t.attributes, isIdentifier e.1 = true ∧ e.2.IsWritable

/-- The attributes in order, with vectors for lists and texts for paths. -/
def expressed (t : Target) : List (String × Datum) :=
  t.attributes.map fun e => (e.1, e.2.expressed)

/-- The name of a rule is a token. -/
theorem isTokenChar_rule (k : TargetKind) : ∀ c ∈ k.rule.toList, isTokenChar c = true := by
  cases k <;> exact List.all_eq_true.1 (by decide)

/-- What a target looks like: its rule, and the arguments in parentheses. -/
theorem render_eq {t : Target} {texts : List String}
    (h : Datum.renderArguments t.attributes = .ok texts) :
    t.render = .ok (t.kind.rule ++ "(" ++ ",\n\t".intercalate texts ++ ")") := by
  have hcall : t.toCall.render =
      .ok (t.kind.rule ++ "(" ++ ", ".intercalate [",\n\t".intercalate texts] ++ ")") := by
    rw [toCall, Datum.render, Datum.renderAll, Datum.render, h, Datum.renderAll]
    rfl
  rw [render, hcall]
  rfl

/-- An integer among the values of the attributes is too long to be written. -/
def holdsLongInteger (t : Target) : Bool := Datum.anyArgumentHoldsLong t.attributes

/-- A target holds a long integer just if its call does. -/
theorem holdsLongInteger_toCall (t : Target) :
    t.toCall.holdsLongInteger = t.holdsLongInteger := by
  rw [toCall, Datum.holdsLongInteger, Datum.anyHoldsLong, Datum.holdsLongInteger,
    Datum.anyHoldsLong, Bool.or_false, holdsLongInteger]

/-- A target that is rendered holds none. -/
theorem holdsLongInteger_of_render {t : Target} {text : String} (h : t.render = .ok text) :
    t.holdsLongInteger = false :=
  (holdsLongInteger_toCall t).symm.trans (Datum.holdsLongInteger_of_render h)

/-- Targets whose attributes can be written are rendered unless they hold a long integer, and those
that are rendered have one text exactly if they call one rule with the same attributes in the same
order. -/
theorem render_eq_iff {t t' : Target} (h : t.IsWritable) (h' : t'.IsWritable) :
    ((∃ text, t.render = .ok text) ↔ t.holdsLongInteger = false) ∧
      ∀ text text', t.render = .ok text → t'.render = .ok text' →
        (text = text' ↔ t.kind.rule = t'.kind.rule ∧ t.expressed = t'.expressed) := by
  refine ⟨⟨fun ⟨text, htext⟩ => holdsLongInteger_of_render htext, fun hshort => ?_⟩, ?_⟩
  · obtain ⟨ps, hps, -⟩ := exists_renderArguments h hshort
    exact ⟨_, render_eq hps⟩
  intro text text' htext htext'
  obtain ⟨ps, hps, hfst, hall⟩ := exists_renderArguments h (holdsLongInteger_of_render htext)
  obtain ⟨ps', hps', hfst', hall'⟩ := exists_renderArguments h' (holdsLongInteger_of_render htext')
  obtain rfl := Except.ok.inj (htext.symm.trans (render_eq hps))
  obtain rfl := Except.ok.inj (htext'.symm.trans (render_eq hps'))
  constructor
  · intro heq
    have heq := congrArg String.toList heq
    simp only [String.toList_append, List.append_assoc] at heq
    obtain ⟨hrule, hrest⟩ := token_inj (isTokenChar_rule _) (isTokenChar_rule _)
      (endsToken_cons (c := '(') rfl _) (endsToken_cons (c := '(') rfl _) heq
    obtain ⟨hattributes, -⟩ := parts_arguments.intercalate_inj
      (isOpened_pair (isOpened_named (by decide))) hall (fun p hp => (hall' p hp).1)
      (List.cons.inj hrest).2
    exact ⟨String.toList_inj.1 hrule, by rw [expressed, ← hfst, hattributes, hfst', expressed]⟩
  · rintro ⟨hrule, hattributes⟩
    have hargs : Datum.renderArguments t.attributes = Datum.renderArguments t'.attributes := by
      rw [← Datum.renderArguments_expressed t.attributes,
        ← Datum.renderArguments_expressed t'.attributes]
      exact congrArg Datum.renderArguments hattributes
    rw [hps, hps'] at hargs
    rw [hrule, Except.ok.inj hargs]

/-- A list with a path, and a map with a truth value as a key. -/
def listed : Target :=
  ⟨.sourceLibrary, [("srcs", .list [.path ⟨.relative, ["a", "b.clj"]⟩]),
    ("size_1", .map [(.bool true, .int (-1))])]⟩

/-- The same with a vector and a text, for another kind with the same rule. -/
def vectored : Target :=
  ⟨.aggregateLibrary,
    [("srcs", .vector [.str "a/b.clj"]), ("size_1", .map [(.bool true, .int (-1))])]⟩

theorem isWritable_listed : listed.IsWritable := by
  refine List.forall_mem_cons.2 ⟨⟨by decide, .list ?_⟩, List.forall_mem_cons.2
    ⟨⟨by decide, .map ?_ ?_⟩, by simp⟩⟩
  · exact List.forall_mem_singleton.2 (.path _)
  · exact List.forall_mem_singleton.2 (.bool _)
  · exact List.forall_mem_singleton.2 (.int _)

theorem isWritable_vectored : vectored.IsWritable := by
  refine List.forall_mem_cons.2 ⟨⟨by decide, .vector ?_⟩, List.forall_mem_cons.2
    ⟨⟨by decide, .map ?_ ?_⟩, by simp⟩⟩
  · exact List.forall_mem_singleton.2 (.text _)
  · exact List.forall_mem_singleton.2 (.bool _)
  · exact List.forall_mem_singleton.2 (.int _)

theorem render_listed_eq_vectored : listed.IsWritable ∧ vectored.IsWritable ∧
    ∃ text, listed.render = .ok text ∧ vectored.render = .ok text := by
  obtain ⟨hlisted, heq⟩ := render_eq_iff isWritable_listed isWritable_vectored
  obtain ⟨hvectored, -⟩ := render_eq_iff isWritable_vectored isWritable_listed
  obtain ⟨text, htext⟩ := hlisted.2 (by decide)
  obtain ⟨text', htext'⟩ := hvectored.2 (by decide)
  have hpath : Path.toText ⟨.relative, ["a", "b.clj"]⟩ = "a/b.clj" := by decide +kernel
  have hsame : listed.expressed = vectored.expressed := by
    simp [listed, vectored, expressed, Datum.expressed, Datum.expressedAll, hpath]
  obtain rfl := (heq text text' htext htext').2 ⟨rfl, hsame⟩
  exact ⟨isWritable_listed, isWritable_vectored, text, htext, htext'⟩

end Target

end BuildFiles
