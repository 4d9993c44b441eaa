import BuildFiles.Proofs.Namespace.Heading
import Mathlib.Data.List.TakeWhile

/-!
# How a text opens a declaration

`Source.opensDeclaration` tells by the looks of a text whether it starts with `(ns`. What the reader
would say is `OpensNs`: it passes over gaps, takes an opening parenthesis, passes over gaps again,
and takes the token `ns`. A text that opens so is read as a declaration or not at all
(`isForm_of_opensNs`).

The two do not agree. Of the texts that open a declaration only those look like it that have nothing
but blanks in the parenthesis before `ns`, and a blank or the closing parenthesis right after it:
`OpensPlainly`. The other way round, there are blanks that the reader takes for letters of a token.
These are all the differences: `opensDeclaration_iff`, `opensNs_or_exists_blank`.
-/

namespace BuildFiles

namespace Reader

variable {features : List String} {cs rest tail : List Char} {frames : List Frame} {c : Char}

/-! ## Gaps -/

/-- The text after what the reader passes over before a form: blanks, comments, and lines that start
with `#!`. -/
def skipGaps (cs : List Char) : List Char :=
  match _h : skipBlank cs with
  | '#' :: '!' :: rest => skipGaps (Text.afterLine rest)
  | rest => rest
termination_by cs.length
decreasing_by
  have h₁ := length_skipBlank_le cs
  have h₂ := Text.length_afterLine_le rest
  rw [_h] at h₁
  simp only [List.length_cons] at h₁
  omega

/-- A line that starts with `#!` is passed over, and whatever gap comes after it. -/
theorem skipGaps_of_line (h : skipBlank cs = '#' :: '!' :: rest) :
    skipGaps cs = skipGaps (Text.afterLine rest) := by
  rw [skipGaps]
  split
  · next rest' h' =>
    rw [h] at h'
    cases h'
    rfl
  · next hne => exact absurd h (hne rest)

/-- Without such a line a gap is what is blank. -/
theorem skipGaps_of_ne (h : ∀ rest, skipBlank cs ≠ '#' :: '!' :: rest) :
    skipGaps cs = skipBlank cs := by
  rw [skipGaps]
  split
  · next rest h' => exact absurd h' (h rest)
  · rfl

/-- A gap depends only on what comes after the blanks. -/
theorem skipGaps_congr {cs' : List Char} (h : skipBlank cs = skipBlank cs') :
    skipGaps cs = skipGaps cs' := by
  by_cases hline : ∃ rest, skipBlank cs' = '#' :: '!' :: rest
  · obtain ⟨rest, hrest⟩ := hline
    rw [skipGaps_of_line (h.trans hrest), skipGaps_of_line hrest]
  · have hne : ∀ rest, skipBlank cs' ≠ '#' :: '!' :: rest := fun rest hrest => hline ⟨rest, hrest⟩
    rw [skipGaps_of_ne hne, skipGaps_of_ne (by rwa [h]), h]

theorem skipGaps_cons_of_isSpace (h : isSpace c = true) : skipGaps (c :: cs) = skipGaps cs :=
  skipGaps_congr (skipBlank_cons_of_isSpace h)

theorem skipGaps_cons (hspace : isSpace c = false) (hcomment : c ≠ ';') (hline : c ≠ '#') :
    skipGaps (c :: cs) = c :: cs := by
  have hskip : skipBlank (c :: cs) = c :: cs := skipBlank_cons hspace hcomment
  rw [skipGaps_of_ne, hskip]
  rw [hskip]
  exact fun rest h => hline (List.cons.inj h).1

/-- Blanks can be put in front of a gap. -/
theorem skipGaps_append {gap : List Char} (h : ∀ c ∈ gap, isSpace c = true) (rest : List Char) :
    skipGaps (gap ++ rest) = skipGaps rest := by
  induction gap with
  | nil => rfl
  | cons c gap ih =>
    obtain ⟨hc, hgap⟩ := List.forall_mem_cons.1 h
    rw [List.cons_append, skipGaps_cons_of_isSpace hc, ih hgap]

/-- What comes after a gap starts none. -/
theorem skipGaps_eq_cons (h : skipGaps cs = c :: tail) :
    isSpace c = false ∧ c ≠ ';' ∧ (c ≠ '#' ∨ tail.head? ≠ some '!') := by
  fun_induction skipGaps cs with
  | case1 cs rest hskip ih => exact ih h
  | case2 cs hne =>
    obtain ⟨hspace, hcomment⟩ := skipBlank_eq_cons h
    refine ⟨hspace, hcomment, ?_⟩
    rw [← not_and_or]
    rintro ⟨rfl, hhead⟩
    obtain ⟨rest, rfl⟩ := List.head?_eq_some_iff.1 hhead
    exact hne rest h

/-- Gaps say nothing. -/
theorem advance_skipGaps (cs : List Char) :
    advance features frames (skipGaps cs) = advance features frames cs := by
  fun_induction skipGaps cs with
  | case1 cs rest hskip ih =>
    rw [ih, advance_of_scan (x := .gap) hskip rfl]
    rfl
  | case2 cs hne => exact advance_congr (skipBlank_skipBlank cs)

/-! ## Inside the form of a declaration -/

/-- The outermost frame is a list that starts with the symbol `ns`. -/
inductive InsideNs : List Frame → Prop
  | outermost (opened : List Char) (items : List Datum) :
      InsideNs [.collecting .round opened (items ++ [.sym "ns"])]
  | within (f : Frame) {frames : List Frame} (h : InsideNs frames) : InsideNs (f :: frames)

/-- What comes of a reading inside the form of a declaration. -/
def Progress.IsOfNs : Progress → Prop
  | .complete d => Declaration.isForm d = true
  | .pending frames => InsideNs frames

/-- Inside the form of a declaration one stays there when the bracket takes in more. -/
theorem insideNs_collecting {b : Bracket} {opened : List Char} {items : List Datum}
    (ds : List Datum) (h : InsideNs (.collecting b opened items :: frames)) :
    InsideNs (.collecting b opened (ds ++ items) :: frames) := by
  cases h with
  | outermost _ items =>
    rw [← List.append_assoc]
    exact .outermost opened (ds ++ items)
  | within _ h => exact .within _ h

/-- Inside the form of a declaration an item goes to an inner frame or into the list, behind the
symbol that makes it a declaration; the list itself is not complete before its own bracket
closes. -/
theorem isOfNs_of_deliver {item : Item} {p : Progress} (hframes : InsideNs frames)
    (h : deliver rest item frames = .ok p) : p.IsOfNs := by
  fun_induction deliver rest item frames with
  | case1 =>
    cases h
    exact hframes
  | case2 => cases hframes
  | case3 => cases h
  | case4 d b opened items frames =>
    cases h
    exact insideNs_collecting [d] hframes
  | case5 ds b opened items frames =>
    cases h
    exact insideNs_collecting ds.reverse hframes
  | case6 item head frames hne ih =>
    cases hframes with
    | within _ hframes => exact ih hframes h
  | case7 item frames hne =>
    cases h
    cases hframes with
    | within _ hframes => exact .within _ hframes
  | case8 item metadata frames hne result hattach ih =>
    cases hframes with
    | within _ hframes => exact ih hframes h
  | case9 => cases h
  | case10 item frames hne =>
    cases h
    cases hframes with
    | within _ hframes => exact hframes
  | case11 item frames hne n attached hdatum =>
    cases h
    cases hframes with
    | within _ hframes => exact .within _ hframes
  | case12 => cases h
  | case13 item n attached frames hne ih =>
    cases hframes with
    | within _ hframes => exact ih hframes h

/-- A list that starts with the symbol `ns` is the form of a declaration. -/
theorem isForm_sym_ns (items : List Datum) :
    Declaration.isForm (.list (.sym "ns" :: items)) = true := by
  with_unfolding_all rfl

/-- A delimiter that closes something inside the form leads on within it, or completes it. -/
theorem isOfNs_of_close {delimiter : Char} {p : Progress} (hframes : InsideNs frames)
    (h : close features delimiter rest frames = .ok p) : p.IsOfNs := by
  unfold close at h
  split at h
  · next b opened items frames =>
    split_ifs at h
    split at h
    · next item hitem =>
      cases hframes with
      | outermost _ items =>
        cases hitem
        cases h
        rw [List.reverse_append]
        exact isForm_sym_ns items.reverse
      | within _ hframes => exact isOfNs_of_deliver hframes h
    · cases h
  · cases h

/-- Every lexeme that is taken in inside the form leads on within it, or completes it. -/
theorem isOfNs_of_push {x : Lexeme} {p : Progress} (hframes : InsideNs frames)
    (h : push features rest frames x = .ok p) : p.IsOfNs := by
  cases x with
  | atom d => exact isOfNs_of_deliver hframes h
  | closing delimiter => exact isOfNs_of_close hframes h
  | gap =>
    cases h
    exact hframes
  | _ =>
    cases h
    exact .within _ hframes

/-- A list that starts with `ns` is read to its end, and then it is the form that was read. -/
theorem isForm_of_insideNs {x : Option (Datum × List Char)} (hframes : InsideNs frames)
    (h : advance features frames cs = .ok x) :
    ∃ d rest, x = some (d, rest) ∧ Declaration.isForm d = true := by
  fun_induction advance features frames cs with
  | case1 => cases h
  | case2 frames cs hskip hend =>
    cases hframes with
    | outermost => cases hend
    | within f hframes => cases f <;> cases hend
  | case3 => cases h
  | case4 => cases h
  | case5 frames cs c tail hskip x rest' hscan d hpush =>
    cases h
    exact ⟨d, rest', rfl, isOfNs_of_push hframes hpush⟩
  | case6 frames cs c tail hskip x rest' hscan frames' hpush ih =>
    exact ih (isOfNs_of_push hframes hpush) h

/-! ## The opening -/

/-- After what is passed over the reader takes an opening parenthesis, and after what is passed over
then the token `ns`. -/
def OpensNs (cs : List Char) : Prop :=
  ∃ tail, skipGaps cs = '(' :: tail ∧ token (skipGaps tail) = ['n', 's']

/-- A text starts with its token. -/
theorem exists_of_token_eq {t : List Char} (h : token cs = t) : cs = t ++ afterToken cs := by
  rw [← h, token, afterToken, List.takeWhile_append_dropWhile]

/-- So the reader goes on in a list that starts with `ns`. -/
theorem advance_of_opensNs (h : OpensNs cs) :
    ∃ tail rest, advance features frames cs =
      advance features (.collecting .round tail [.sym "ns"] :: frames) rest := by
  obtain ⟨tail, hopen, htoken⟩ := h
  refine ⟨tail, afterToken (skipGaps tail), ?_⟩
  have hns : skipGaps tail = 'n' :: 's' :: afterToken (skipGaps tail) := exists_of_token_eq htoken
  have hscan : scan 'n' ('s' :: afterToken (skipGaps tail)) =
      .ok (.atom (.sym "ns"), afterToken (skipGaps tail)) := by
    rw [scan_of_not_mem (by decide), ← hns, htoken]
    with_unfolding_all rfl
  rw [← advance_skipGaps cs, hopen, advance_of_scan (c := '(') rfl rfl]
  change advance _ _ tail = _
  rw [← advance_skipGaps tail, hns, advance_of_scan rfl hscan, ← hns]
  rfl

/-- A text that opens a declaration is read as one, if it is read at all. -/
theorem isForm_of_opensNs {text : String} {d : Datum} (h : OpensNs text.toList)
    (hd : first text features = .ok d) : Declaration.isForm d = true := by
  obtain ⟨tail, rest, hadvance⟩ : ∃ tail rest, advance features [] text.toList =
      advance features [.collecting .round tail [.sym "ns"]] rest := advance_of_opensNs h
  rw [first, hadvance] at hd
  have hinside : InsideNs [.collecting .round tail [.sym "ns"]] := .outermost tail []
  split at hd
  · next d' rest' hsome =>
    cases hd
    obtain ⟨d', rest', hx, hform⟩ := isForm_of_insideNs hinside hsome
    cases hx
    exact hform
  · next hnone =>
    obtain ⟨d', rest', hx, -⟩ := isForm_of_insideNs hinside hnone
    cases hx
  · cases hd

/-- Of a text that opens a declaration: there are only blanks in the parenthesis before `ns`, and a
blank or the closing parenthesis comes right after it. -/
def OpensPlainly (cs : List Char) : Prop :=
  ∃ gap after, skipGaps cs = '(' :: (gap ++ 'n' :: 's' :: after) ∧
    (∀ c ∈ gap, isSpace c = true ∧ c ≠ ',') ∧ ∃ c ∈ after.head?, isSpace c = true ∨ c = ')'

/-- The first token of the text, or the first in the parenthesis that the text opens. -/
def firstToken (cs : List Char) : List Char :=
  match skipGaps cs with
  | '(' :: tail => token (skipGaps tail)
  | rest => token rest

/-- The first token of a text that opens a parenthesis is the one after it. -/
theorem firstToken_of_open (h : skipGaps cs = '(' :: tail) :
    firstToken cs = token (skipGaps tail) := by
  rw [firstToken, h]
  rfl

/-- Otherwise it is the token that the text starts with. -/
theorem firstToken_of_ne (h : skipGaps cs = c :: tail) (hc : c ≠ '(') :
    firstToken cs = token (c :: tail) := by
  rw [firstToken, h]
  split
  · next heq => exact absurd (List.cons.inj heq).1 hc
  · rfl

end Reader

namespace Source

open Reader

variable {cs rest gap : List Char} {c : Char} {text : String}

/-! ## What the two take for blank -/

/-- What the reader skips is blank, except for commas. -/
theorem isBlank_of_isSpace (h : isSpace c = true) (hc : c ≠ ',') : Text.isBlank c = true := by
  simp only [isSpace, Bool.or_eq_true, beq_iff_eq, or_assoc] at h
  rcases h with rfl | rfl | rfl | rfl | rfl | rfl
  · rfl
  · rfl
  · rfl
  · rfl
  · rfl
  · exact absurd rfl hc

/-- No delimiter is blank. -/
theorem isBlank_of_isDelimiter (h : isDelimiter c = true) : Text.isBlank c = false := by
  simp only [isDelimiter, Bool.or_eq_true, beq_iff_eq, or_assoc] at h
  rcases h with rfl | rfl | rfl | rfl | rfl | rfl | rfl | rfl | rfl | rfl | rfl | rfl | rfl <;> rfl

theorem ne_of_isBlank {c' : Char} (h : Text.isBlank c = true) (h' : Text.isBlank c' = false) :
    c ≠ c' := by
  rintro rfl
  rw [h] at h'
  cases h'

/-- A blank that is none to the reader is a letter to it. -/
theorem isTokenChar_of_isBlank (h : Text.isBlank c = true) (hspace : isSpace c = false) :
    isTokenChar c = true := by
  have hdelimiter : isDelimiter c = false := by
    rw [← Bool.not_eq_true]
    intro hc
    rw [isBlank_of_isDelimiter hc] at h
    cases h
  rw [isTokenChar, hspace, hdelimiter]
  rfl

/-- What is blank and belongs to no token is skipped by the reader. -/
theorem isSpace_of_isBlank (h : Text.isBlank c = true) (hend : isTokenChar c = false) :
    isSpace c = true := by
  rw [← Bool.not_eq_false]
  intro hspace
  rw [isTokenChar_of_isBlank h hspace] at hend
  cases hend

/-! ## Passing over gaps -/

/-- Blanks and commas are passed over. -/
theorem skipTrivia_cons_of_isBlank (h : (Text.isBlank c || c == ',') = true) :
    skipTrivia (c :: cs) = skipTrivia cs := by
  have hc : c ≠ '#' := by
    rintro rfl
    cases h
  rw [skipTrivia, if_pos h]
  rintro rest rfl
  exact absurd rfl hc

/-- Nothing is passed over in front of what is neither blank nor a comment. -/
theorem skipTrivia_cons (hblank : Text.isBlank c = false) (hspace : isSpace c = false)
    (hcomment : c ≠ ';') (hline : c ≠ '#' ∨ cs.head? ≠ some '!') :
    skipTrivia (c :: cs) = c :: cs := by
  have hcomma : c ≠ ',' := by
    rintro rfl
    cases hspace
  rw [skipTrivia, if_neg (by simp [hblank, hcomma]), if_neg hcomment]
  rintro rest rfl rfl
  exact hline.elim (absurd rfl) (absurd rfl)

/-- A comment is passed over as far as its line goes. -/
theorem skipLine_eq (cs : List Char) : skipTrivia.skipLine cs = skipTrivia (Text.afterLine cs) := by
  induction cs with
  | nil => rfl
  | cons c cs ih =>
    by_cases hc : c = '\n'
    · rw [hc]
      rfl
    · rw [skipTrivia.skipLine, if_neg hc, ih, Text.afterLine, Text.afterLine,
        List.dropWhile_cons_of_pos (by simpa using hc)]

mutual

/-- What the reader skips the look passes over as well. -/
theorem skipTrivia_skipBlank : ∀ cs : List Char, skipTrivia (skipBlank cs) = skipTrivia cs
  | [] => rfl
  | c :: cs => by
    by_cases hspace : isSpace c = true
    · have hblank : (Text.isBlank c || c == ',') = true := by
        by_cases hc : c = ','
        · simp [hc]
        · simp [isBlank_of_isSpace hspace hc]
      rw [skipBlank_cons_of_isSpace hspace, skipTrivia_cons_of_isBlank hblank,
        skipTrivia_skipBlank cs]
    · rw [Bool.not_eq_true] at hspace
      by_cases hc : c = ';'
      · subst hc
        exact skipTrivia_skipComment cs
      · rw [skipBlank_cons hspace hc]

theorem skipTrivia_skipComment : ∀ cs : List Char,
    skipTrivia (skipComment cs) = skipTrivia.skipLine cs
  | [] => rfl
  | c :: cs => by
    by_cases hc : c = '\n'
    · subst hc
      exact skipTrivia_skipBlank cs
    · rw [skipComment_cons hc, skipTrivia.skipLine, if_neg hc, skipTrivia_skipComment cs]

end

/-- What the reader passes over is passed over here too. -/
theorem skipTrivia_skipGaps (cs : List Char) : skipTrivia (skipGaps cs) = skipTrivia cs := by
  fun_induction skipGaps cs with
  | case1 cs rest hskip ih =>
    rw [ih, ← skipLine_eq, ← skipTrivia_skipBlank cs, hskip]
    rfl
  | case2 cs hne => exact skipTrivia_skipBlank cs

/-- Where the reader finds something that is no blank, so is it found here. -/
theorem skipTrivia_of_skipGaps (h : skipGaps cs = c :: rest) (hblank : Text.isBlank c = false) :
    skipTrivia cs = c :: rest := by
  obtain ⟨hspace, hcomment, hline⟩ := skipGaps_eq_cons h
  rw [← skipTrivia_skipGaps, h, skipTrivia_cons hblank hspace hcomment hline]

/-- In front of a token there are only the blanks of the reader, or the token starts with another
blank. -/
theorem isSpace_or_exists_blank (hgap : ∀ c ∈ gap, Text.isBlank c = true) (rest : List Char) :
    (∀ c ∈ gap, isSpace c = true) ∨
      ∃ c ∈ token (skipGaps (gap ++ rest)), Text.isBlank c = true := by
  induction gap with
  | nil => exact .inl (by simp)
  | cons c gap ih =>
    obtain ⟨hc, hgap⟩ := List.forall_mem_cons.1 hgap
    by_cases hspace : isSpace c = true
    · rw [List.cons_append, skipGaps_cons_of_isSpace hspace]
      exact (ih hgap).imp_left fun h => List.forall_mem_cons.2 ⟨hspace, h⟩
    · rw [Bool.not_eq_true] at hspace
      refine .inr ⟨c, ?_, hc⟩
      rw [List.cons_append, skipGaps_cons hspace (ne_of_isBlank hc rfl) (ne_of_isBlank hc rfl),
        token, List.takeWhile_cons_of_pos (isTokenChar_of_isBlank hc hspace)]
      exact List.mem_cons_self

/-! ## Looks and readings -/

/-- The looks of a text that opens a declaration. -/
theorem opensDeclaration_eq_true : opensDeclaration text = true ↔
    ∃ gap c rest, skipTrivia text.toList = '(' :: (gap ++ 'n' :: 's' :: c :: rest) ∧
      (∀ c ∈ gap, Text.isBlank c = true) ∧ (Text.isBlank c = true ∨ c = ',' ∨ c = ')') := by
  constructor
  · intro h
    rw [opensDeclaration] at h
    split at h
    · next cs hcs =>
      split at h
      · next c rest hdrop =>
        refine ⟨cs.takeWhile Text.isBlank, c, rest, ?_, fun c hc => List.mem_takeWhile_imp hc, ?_⟩
        · rw [hcs, ← hdrop, List.takeWhile_append_dropWhile]
        · simpa only [Bool.or_eq_true, beq_iff_eq, or_assoc] using h
      · cases h
    · cases h
  · rintro ⟨gap, c, rest, hopen, hgap, hc⟩
    have hdrop : (gap ++ 'n' :: 's' :: c :: rest).dropWhile Text.isBlank =
        'n' :: 's' :: c :: rest := List.dropWhile_append_of_pos hgap
    simpa only [opensDeclaration, hopen, hdrop, Bool.or_eq_true, beq_iff_eq, or_assoc] using hc

/-- What follows the token `ns` is no letter of it. -/
theorem isTokenChar_eq_false_of_token {c : Char} {rest : List Char}
    (h : token ('n' :: 's' :: c :: rest) = ['n', 's']) : isTokenChar c = false := by
  rw [← Bool.not_eq_true]
  intro hletter
  rw [token, List.takeWhile_cons_of_pos rfl, List.takeWhile_cons_of_pos rfl,
    List.takeWhile_cons_of_pos hletter] at h
  cases h

/-- Of the texts that open a declaration, those also look like it that do so plainly, with `ns`
right behind the parenthesis and its blanks, and what the expression for looks wants to follow. -/
theorem opensDeclaration_iff (h : OpensNs text.toList) :
    opensDeclaration text = true ↔ OpensPlainly text.toList := by
  obtain ⟨tail, hopen, htoken⟩ := h
  have htrivia : skipTrivia text.toList = '(' :: tail := skipTrivia_of_skipGaps hopen rfl
  rw [opensDeclaration_eq_true, htrivia]
  constructor
  · rintro ⟨gap, c, rest, htail, hgap, hc⟩
    obtain rfl : tail = gap ++ 'n' :: 's' :: c :: rest := (List.cons.inj htail).2
    rcases isSpace_or_exists_blank hgap ('n' :: 's' :: c :: rest) with hspace | ⟨x, hx, hblank⟩
    · rw [skipGaps_append hspace, skipGaps_cons rfl (by decide) (by decide)] at htoken
      have hend : isTokenChar c = false := isTokenChar_eq_false_of_token htoken
      refine ⟨gap, c :: rest, hopen, fun x hx => ⟨hspace x hx, ne_of_isBlank (hgap x hx) rfl⟩,
        c, rfl, ?_⟩
      rcases hc with hblank | rfl | rfl
      · exact .inl (isSpace_of_isBlank hblank hend)
      · exact .inl rfl
      · exact .inr rfl
    · -- neither letter of the token is a blank
      rw [htoken] at hx
      simp only [List.mem_cons, List.not_mem_nil, or_false] at hx
      rcases hx with rfl | rfl <;> cases hblank
  · rintro ⟨gap, after, hplain, hgap, c, hc, hend⟩
    obtain ⟨rest, rfl⟩ := List.head?_eq_some_iff.1 hc
    refine ⟨gap, c, rest, hopen.symm.trans hplain,
      fun x hx => isBlank_of_isSpace (hgap x hx).1 (hgap x hx).2, ?_⟩
    rcases hend with hspace | rfl
    · by_cases hcomma : c = ','
      · exact .inr (.inl hcomma)
      · exact .inl (isBlank_of_isSpace hspace hcomma)
    · exact .inr (.inr rfl)

/-- A text that only looks like it has a blank where the reader sees a letter. -/
theorem opensNs_or_exists_blank (h : opensDeclaration text = true) :
    OpensNs text.toList ∨ ∃ c ∈ firstToken text.toList, Text.isBlank c = true := by
  obtain ⟨gap, c, rest, htrivia, hgap, hc⟩ := opensDeclaration_eq_true.1 h
  rcases hopen : skipGaps text.toList with _ | ⟨x, tail⟩
  · rw [← skipTrivia_skipGaps, hopen] at htrivia
    cases htrivia
  · obtain ⟨hspace, -⟩ := skipGaps_eq_cons hopen
    by_cases hblank : Text.isBlank x = true
    · refine .inr ⟨x, ?_, hblank⟩
      rw [firstToken_of_ne hopen (ne_of_isBlank hblank rfl), token,
        List.takeWhile_cons_of_pos (isTokenChar_of_isBlank hblank hspace)]
      exact List.mem_cons_self
    · rw [Bool.not_eq_true] at hblank
      rw [skipTrivia_of_skipGaps hopen hblank] at htrivia
      obtain ⟨rfl, rfl⟩ := List.cons.inj htrivia
      rw [firstToken_of_open hopen]
      rcases isSpace_or_exists_blank hgap ('n' :: 's' :: c :: rest) with hspaces | hexists
      · have htail : skipGaps (gap ++ 'n' :: 's' :: c :: rest) = 'n' :: 's' :: c :: rest := by
          rw [skipGaps_append hspaces, skipGaps_cons rfl (by decide) (by decide)]
        by_cases hletter : isTokenChar c = true
        · refine .inr ⟨c, ?_, ?_⟩
          · rw [htail, token, List.takeWhile_cons_of_pos rfl, List.takeWhile_cons_of_pos rfl,
              List.takeWhile_cons_of_pos hletter]
            simp
          · -- a comma and a parenthesis are no letters
            rcases hc with hc | rfl | rfl
            · exact hc
            · cases hletter
            · cases hletter
        · refine .inl ⟨_, hopen, ?_⟩
          rw [htail, token, List.takeWhile_cons_of_pos rfl, List.takeWhile_cons_of_pos rfl,
            List.takeWhile_cons_of_neg hletter]
      · exact .inr hexists

example : opensDeclaration "(\x0bns)" = true := by decide

/-- Where the looks of a text and its reading agree, and what comes of it where they do not. A text
that opens a declaration looks like it if it does so plainly, and only then. A text that only looks
like it has a blank in the first token that the reader takes. A text that opens a declaration and
cannot be read is a fault of the declaration if it does so plainly, and otherwise one of the source;
that it declares nothing is never what comes of it. -/
theorem opensDeclaration_agrees (text : String) :
    (OpensNs text.toList → (opensDeclaration text = true ↔ OpensPlainly text.toList)) ∧
    (opensDeclaration text = true → OpensNs text.toList ∨
      ∃ c ∈ firstToken text.toList, Text.isBlank c = true) ∧
    ∀ source platform, OpensNs text.toList →
      declaration? text source platform ≠ .ok none ∧
      ∀ cause line, first text platform.features = .error (.malformed cause line) →
        (OpensPlainly text.toList →
          declaration? text source platform =
            .error (.declaration source (.malformed cause line))) ∧
        (¬ OpensPlainly text.toList →
          declaration? text source platform = .error (.source source (.malformed cause line))) := by
  refine ⟨opensDeclaration_iff, opensNs_or_exists_blank, fun source platform h => ⟨?_, ?_⟩⟩
  · intro hnone
    rw [declaration?] at hnone
    split at hnone
    · cases hnone
    · next form hform =>
      rw [if_pos (isForm_of_opensNs h hform)] at hnone
      rcases hd : Declaration.ofForm form source with e | d
      · rw [hd] at hnone
        cases hnone
      · rw [hd] at hnone
        cases hnone
  · intro cause line hfirst
    have hfault : declaration? text source platform =
        .error (fault text source (.malformed cause line)) := by
      rw [declaration?, hfirst]
    rw [hfault, fault]
    constructor
    · intro hplain
      rw [if_pos ((opensDeclaration_iff h).2 hplain)]
    · intro hplain
      rw [if_neg fun hopens => hplain ((opensDeclaration_iff h).1 hopens)]

/-- A text that ends right after `ns` opens a declaration and does not look like it. -/
theorem opensDeclaration_agrees_of_unclosed :
    OpensNs "(ns".toList ∧ opensDeclaration "(ns" = false ∧
      declaration? "(ns" "x.clj" .clj =
        .error (.source "x.clj" (.malformed (.unclosed ')') 1)) := by
  have hopen : skipGaps ['(', 'n', 's'] = ['(', 'n', 's'] :=
    skipGaps_cons rfl (by decide) (by decide)
  have htoken : token (skipGaps ['n', 's']) = ['n', 's'] := by
    rw [skipGaps_cons rfl (by decide) (by decide)]
    rfl
  have hopens : OpensNs "(ns".toList := ⟨['n', 's'], hopen, htoken⟩
  have hplain : ¬ OpensPlainly "(ns".toList := by
    rintro ⟨gap, after, hafter, -, c, hc, -⟩
    obtain ⟨rest, rfl⟩ := List.head?_eq_some_iff.1 hc
    have hlength := congrArg List.length (hopen.symm.trans hafter)
    simp only [List.length_cons, List.length_append, List.length_nil] at hlength
    omega
  have hfirst : first "(ns" Platform.clj.features = .error (.malformed (.unclosed ')') 1) := by
    have hadvance : advance Platform.clj.features [] "(ns".toList =
        .error (.malformed (.unclosed ')') ['n', 's']) := by
      rw [advance_of_scan (c := '(') rfl rfl]
      change advance _ _ ['n', 's'] = _
      rw [advance_of_scan (c := 'n') rfl rfl]
      exact advance_of_end rfl
    rw [first, hadvance]
    rfl
  obtain ⟨hlooks, -, hfault⟩ := opensDeclaration_agrees "(ns"
  refine ⟨hopens, ?_, ((hfault "x.clj" .clj hopens).2 _ _ hfirst).2 hplain⟩
  rw [← Bool.not_eq_true, hlooks hopens]
  exact hplain

end Source

end BuildFiles
