import BuildFiles.Reader.Lexeme
import Mathlib.Tactic.SplitIfs

/-!
# Lexemes in a longer text

What `scan` takes from a text it also takes when more text follows, as long as the text goes on
after the lexeme or the text that follows starts a new line: `scan_append`. Which lexeme it takes
from which text is said once by `Scans`; what holds of all lexemes follows by cases.
-/

namespace BuildFiles.Text

/-- Where a line ends, it ends in a longer text too. -/
theorem afterLine_append {cs u : List Char} (h : afterLine cs ≠ []) :
    afterLine (cs ++ u) = afterLine cs ++ u := by
  rw [afterLine] at h
  rw [afterLine, afterLine, List.dropWhile_append]
  split
  · next hnil => simp [List.isEmpty_iff.1 hnil] at h
  · next hne =>
    rw [List.drop_append_of_le_length]
    exact List.length_pos_iff.2 (by simpa using hne)

/-- What comes after a line is a rest of the text. -/
theorem afterLine_suffix (cs : List Char) : afterLine cs <:+ cs :=
  (List.drop_suffix 1 _).trans (List.dropWhile_suffix _)

end BuildFiles.Text

namespace BuildFiles.Reader

variable {cs rest u : List Char}

/-! ## Blanks and comments -/

theorem skipBlank_cons_of_isSpace {c : Char} (h : isSpace c = true) :
    skipBlank (c :: cs) = skipBlank cs := by
  rw [skipBlank, if_pos h]

theorem skipBlank_semicolon : skipBlank (';' :: cs) = skipComment cs := rfl

theorem skipBlank_cons {c : Char} (h : isSpace c = false) (hc : c ≠ ';') :
    skipBlank (c :: cs) = c :: cs := by
  rw [skipBlank, if_neg (by simp [h]), if_neg hc]

theorem skipComment_cons {c : Char} (h : c ≠ '\n') : skipComment (c :: cs) = skipComment cs := by
  rw [skipComment, if_neg h]

/-- A comment goes up to the end of its line. -/
theorem skipComment_eq (cs : List Char) : skipComment cs = skipBlank (Text.afterLine cs) := by
  induction cs with
  | nil => rfl
  | cons c cs ih =>
    by_cases hc : c = '\n'
    · rw [hc]
      rfl
    · rw [skipComment_cons hc, ih, Text.afterLine, Text.afterLine,
        List.dropWhile_cons_of_pos (by simpa using hc)]

mutual

/-- Skipping what is blank once is enough. -/
theorem skipBlank_skipBlank : ∀ cs : List Char, skipBlank (skipBlank cs) = skipBlank cs
  | [] => rfl
  | c :: cs => by
    by_cases hspace : isSpace c = true
    · rw [skipBlank_cons_of_isSpace hspace, skipBlank_skipBlank cs]
    · rw [Bool.not_eq_true] at hspace
      by_cases hc : c = ';'
      · subst hc
        exact skipBlank_skipComment cs
      · rw [skipBlank_cons hspace hc, skipBlank_cons hspace hc]

/-- Nothing blank is left after a comment either. -/
theorem skipBlank_skipComment : ∀ cs : List Char, skipBlank (skipComment cs) = skipComment cs
  | [] => rfl
  | c :: cs => by
    by_cases hc : c = '\n'
    · subst hc
      exact skipBlank_skipBlank cs
    · rw [skipComment_cons hc, skipBlank_skipComment cs]

end

/-- No blank and no comment is left; or else the text would get shorter once more. -/
theorem skipBlank_eq_cons {c : Char} {tail : List Char} (h : skipBlank cs = c :: tail) :
    isSpace c = false ∧ c ≠ ';' := by
  have hagain : skipBlank (c :: tail) = c :: tail := by rw [← h, skipBlank_skipBlank]
  constructor
  · rw [← Bool.not_eq_true]
    intro hspace
    have hle := length_skipBlank_le tail
    rw [← skipBlank_cons_of_isSpace hspace, hagain, List.length_cons] at hle
    omega
  · rintro rfl
    have hle := length_skipComment_le tail
    rw [← skipBlank_semicolon, hagain, List.length_cons] at hle
    omega

/-! ## What more text does not change -/

/-- What was taken from a text ends whatever `u` after the text is: some of the text is left, or `u`
starts a new line. -/
def Parted (rest u : List Char) : Prop := rest ≠ [] ∨ u.head? = some '\n'

/-- What follows a token stays what it is, with more text behind it, if something there ends the
token already. -/
theorem afterToken_append (h : Parted (afterToken cs) u) :
    afterToken (cs ++ u) = afterToken cs ++ u := by
  rw [afterToken, List.dropWhile_append]
  split
  · next hnil =>
    have hnil : afterToken cs = [] := List.isEmpty_iff.1 hnil
    obtain ⟨b, rfl⟩ := List.head?_eq_some_iff.1 (h.resolve_left fun hne => hne hnil)
    rw [hnil]
    rfl
  · rfl

/-- The token stays the same then. -/
theorem token_append (h : Parted (afterToken cs) u) : token (cs ++ u) = token cs := by
  -- both texts fall into token and rest, and the rests are known to agree
  have happend : token (cs ++ u) ++ afterToken (cs ++ u) = token cs ++ afterToken cs ++ u := by
    rw [token, token, afterToken, afterToken, List.takeWhile_append_dropWhile,
      List.takeWhile_append_dropWhile]
  rw [afterToken_append h, List.append_assoc] at happend
  exact List.append_cancel_right happend

mutual

/-- Blanks end where they did if something follows them already. -/
theorem skipBlank_append : ∀ cs : List Char, skipBlank cs ≠ [] →
    skipBlank (cs ++ u) = skipBlank cs ++ u
  | [], h => absurd rfl h
  | c :: cs, h => by
    rw [List.cons_append]
    by_cases hspace : isSpace c = true
    · rw [skipBlank_cons_of_isSpace hspace] at h
      rw [skipBlank_cons_of_isSpace hspace, skipBlank_cons_of_isSpace hspace, skipBlank_append cs h]
    · rw [Bool.not_eq_true] at hspace
      by_cases hc : c = ';'
      · subst hc
        exact skipComment_append cs h
      · rw [skipBlank_cons hspace hc, skipBlank_cons hspace hc, List.cons_append]

/-- A comment ends where it did if something follows it already. -/
theorem skipComment_append : ∀ cs : List Char, skipComment cs ≠ [] →
    skipComment (cs ++ u) = skipComment cs ++ u
  | [], h => absurd rfl h
  | c :: cs, h => by
    rw [List.cons_append]
    by_cases hc : c = '\n'
    · subst hc
      exact skipBlank_append cs h
    · rw [skipComment_cons hc] at h
      rw [skipComment_cons hc, skipComment_cons hc, skipComment_append cs h]

end

/-- Where a lexeme starts, it starts in a longer text too. -/
theorem skipBlank_append_cons {c : Char} {tail : List Char} (h : skipBlank cs = c :: tail) :
    skipBlank (cs ++ u) = c :: (tail ++ u) := by
  rw [skipBlank_append cs (by rw [h]; exact List.cons_ne_nil c tail), h, List.cons_append]

mutual

/-- Where only blanks and comments are left, a new line starts afresh. -/
theorem skipBlank_append_lineFeed : ∀ cs : List Char, skipBlank cs = [] →
    skipBlank (cs ++ '\n' :: u) = skipBlank u
  | [], _ => rfl
  | c :: cs, h => by
    rw [List.cons_append]
    by_cases hspace : isSpace c = true
    · rw [skipBlank_cons_of_isSpace hspace] at h
      rw [skipBlank_cons_of_isSpace hspace, skipBlank_append_lineFeed cs h]
    · rw [Bool.not_eq_true] at hspace
      by_cases hc : c = ';'
      · subst hc
        exact skipComment_append_lineFeed cs h
      · rw [skipBlank_cons hspace hc] at h
        cases h

/-- A comment that the text ends in ends with a line feed after it. -/
theorem skipComment_append_lineFeed : ∀ cs : List Char, skipComment cs = [] →
    skipComment (cs ++ '\n' :: u) = skipBlank u
  | [], _ => rfl
  | c :: cs, h => by
    rw [List.cons_append]
    by_cases hc : c = '\n'
    · subst hc
      exact skipBlank_append_lineFeed cs h
    · rw [skipComment_cons hc] at h
      rw [skipComment_cons hc, skipComment_append_lineFeed cs h]

end

/-- What is skipped after the rest of a line is the same when the text goes on with a new line, also
where the line was the last one. -/
theorem skipBlank_afterLine_append (cs u : List Char) :
    skipBlank (Text.afterLine (cs ++ '\n' :: u)) = skipBlank (Text.afterLine cs ++ '\n' :: u) := by
  by_cases h : skipBlank (Text.afterLine cs) = []
  · rw [skipBlank_append_lineFeed _ h, ← skipComment_eq]
    exact skipComment_append_lineFeed cs ((skipComment_eq cs).trans h)
  · rw [skipBlank_append _ h, ← skipComment_eq, ← skipComment_eq]
    exact skipComment_append cs (by rwa [skipComment_eq])

/-! ## Literals -/

/-- What a mapped reading came from. -/
theorem exists_of_map_ok {ε α β : Type} {x : Except ε (α × List Char)} {f : α → β} {b : β}
    (h : x.map (fun p => (f p.1, p.2)) = .ok (b, rest)) : ∃ a, x = .ok (a, rest) ∧ f a = b := by
  cases x with
  | error e => cases h
  | ok p =>
    obtain ⟨a, r⟩ := p
    simp only [Except.map, Except.ok.injEq, Prod.mk.injEq] at h
    exact ⟨a, by rw [h.2], h.1⟩

/-- An escape adds the character that it stands for. -/
theorem stringBody_escape {start : List Char} {e x : Char} (h : stringEscape? e = some x) :
    stringBody start ('\\' :: e :: cs) = (stringBody start cs).map fun p => (x :: p.1, p.2) := by
  have hu : e ≠ 'u' := by
    rintro rfl
    cases h
  rw [stringBody]
  · simp only [h]
  · exact fun a b c d cs' he => absurd he hu
  · exact hu

/-- Any other character adds itself. -/
theorem stringBody_cons {start : List Char} {c : Char} (h : c ≠ '"') (h' : c ≠ '\\') :
    stringBody start (c :: cs) = (stringBody start cs).map fun p => (c :: p.1, p.2) := by
  rw [stringBody]
  all_goals simp [h, h']

/-- The end of a text between quotes is found in the text itself, so more of it does not matter. -/
theorem stringBody_append {start : List Char} (start' : List Char) {s : List Char}
    (h : stringBody start cs = .ok (s, rest)) :
    stringBody start' (cs ++ u) = .ok (s, rest ++ u) := by
  fun_induction stringBody start cs generalizing s with
  | case1 => cases h
  | case2 cs => cases h; rfl
  | case3 => cases h
  | case4 => cases h
  | case5 a b c d cs x hx ih =>
    obtain ⟨s', hs, rfl⟩ := exists_of_map_ok (f := (x :: ·)) h
    simp only [List.cons_append, stringBody, hx, ih hs, Except.map]
  | case6 => cases h
  | case7 e cs hu he x hx ih =>
    obtain ⟨s', hs, rfl⟩ := exists_of_map_ok (f := (x :: ·)) h
    rw [List.cons_append, List.cons_append, stringBody_escape hx, ih hs]
    rfl
  | case8 => cases h
  | case9 c cs hquote hlast h₃ h₄ hescape ih =>
    obtain ⟨s', hs, rfl⟩ := exists_of_map_ok (f := (c :: ·)) h
    have hc : c ≠ '\\' := by
      rintro rfl
      cases cs with
      | nil => exact hlast rfl rfl
      | cons e cs => exact hescape e cs rfl rfl
    rw [List.cons_append, stringBody_cons hquote hc, ih hs]
    rfl

/-- A pattern is read character by character. -/
theorem regexBody_cons {c : Char} (h : c ≠ '"') (h' : c ≠ '\\') :
    regexBody (c :: cs) = (regexBody cs).map fun p => (c :: p.1, p.2) := by
  rw [regexBody]
  all_goals simp [h, h']

/-- The end of a pattern does not depend on more text, either. -/
theorem regexBody_append {s : List Char} (h : regexBody cs = .ok (s, rest)) :
    regexBody (cs ++ u) = .ok (s, rest ++ u) := by
  fun_induction regexBody cs generalizing s with
  | case1 => cases h
  | case2 cs => cases h; rfl
  | case3 => cases h
  | case4 c cs ih =>
    obtain ⟨s', hs, rfl⟩ := exists_of_map_ok (f := fun s => '\\' :: c :: s) h
    rw [List.cons_append, List.cons_append, regexBody, ih hs]
    rfl
  | case5 c cs hquote hlast hescape ih =>
    obtain ⟨s', hs, rfl⟩ := exists_of_map_ok (f := (c :: ·)) h
    have hc : c ≠ '\\' := by
      rintro rfl
      cases cs with
      | nil => exact hlast rfl rfl
      | cons e cs => exact hescape e cs rfl rfl
    rw [List.cons_append, regexBody_cons hquote hc, ih hs]
    rfl

/-- The character that a token stands for does not depend on the text after it. -/
theorem character_eq_ok {t rest : List Char} {x : Char} (h : character t rest = .ok x)
    (rest' : List Char) : character t rest' = .ok x := by
  unfold character at h ⊢
  dsimp only at h ⊢
  split at h
  · exact h
  · split at h
    · exact h
    · split at h
      · next hcode =>
        rw [if_pos hcode]
        exact h
      · next hcode =>
        rw [if_neg hcode]
        split at h
        · next hoctal =>
          rw [if_pos hoctal]
          exact h
        · cases h
  · cases h

/-- A character is the same with more text, if its token has ended. -/
theorem scanCharacter_append {x : Lexeme} (h : scanCharacter cs = .ok (x, rest))
    (hu : Parted rest u) : scanCharacter (cs ++ u) = .ok (x, rest ++ u) := by
  cases cs with
  | nil => cases h
  | cons c cs =>
    rw [scanCharacter] at h
    split at h
    · next y hy =>
      cases h
      rw [List.cons_append, scanCharacter, token_append hu, afterToken_append hu,
        character_eq_ok hy (afterToken cs ++ u)]
    · cases h

theorem dropColon_cons {c : Char} (h : c ≠ ':') : dropColon (c :: cs) = c :: cs := by
  rw [dropColon]
  simpa using h

/-- A second colon is dropped, or not, by what is there. -/
theorem dropColon_append (h : dropColon cs ≠ []) : dropColon (cs ++ u) = dropColon cs ++ u := by
  cases cs with
  | nil => exact absurd rfl h
  | cons c cs =>
    by_cases hc : c = ':'
    · subst hc
      rfl
    · rw [List.cons_append, dropColon_cons hc, dropColon_cons hc, List.cons_append]

/-- A keyword is the same with more text, if its token has ended. -/
theorem scanKeyword_append {x : Lexeme} (h : scanKeyword cs = .ok (x, rest))
    (hu : Parted rest u) : scanKeyword (cs ++ u) = .ok (x, rest ++ u) := by
  have hne : dropColon cs ≠ [] := by
    intro hnil
    rw [scanKeyword, hnil] at h
    cases h
  rw [scanKeyword] at h
  split at h
  · cases h
  · next hname =>
    cases h
    rw [scanKeyword, dropColon_append hne, token_append hu, afterToken_append hu]
    split
    · next hnil => exact absurd hnil hname
    · rfl

/-- A symbolic value depends on its token alone. -/
theorem scanSymbolicValue_eq_ok {x : Lexeme} (h : scanSymbolicValue cs = .ok (x, rest)) :
    rest = afterToken cs ∧
      ∀ cs', token cs' = token cs → scanSymbolicValue cs' = .ok (x, afterToken cs') := by
  rw [scanSymbolicValue] at h
  split_ifs at h with h₁ h₂ h₃
  · cases h
    exact ⟨rfl, fun cs' htoken => by rw [scanSymbolicValue, htoken, if_pos h₁]⟩
  · cases h
    exact ⟨rfl, fun cs' htoken => by rw [scanSymbolicValue, htoken, if_neg h₁, if_pos h₂]⟩
  · cases h
    exact ⟨rfl, fun cs' htoken => by
      rw [scanSymbolicValue, htoken, if_neg h₁, if_neg h₂, if_pos h₃]⟩

/-- The opening of a reader conditional after its marks. -/
def scanBranches (splicing : Bool) (cs : List Char) : Scanned :=
  match skipBlank cs with
  | '(' :: rest => .ok (.opening (.conditional splicing), rest)
  | rest => .error (.malformed .conditionalWithoutList rest)

theorem scanConditional_at : scanConditional ('@' :: cs) = scanBranches true cs := rfl

theorem scanConditional_cons {c : Char} (h : c ≠ '@') :
    scanConditional (c :: cs) = scanBranches false (c :: cs) := by
  rw [scanConditional]
  · rfl
  · exact fun more hmore => h (List.cons.inj hmore).1

/-- The bracket of a conditional is found in what is there. -/
theorem scanBranches_append {splicing : Bool} {x : Lexeme}
    (h : scanBranches splicing cs = .ok (x, rest)) :
    scanBranches splicing (cs ++ u) = .ok (x, rest ++ u) := by
  rw [scanBranches] at h
  split at h
  · next r hr =>
    cases h
    rw [scanBranches, skipBlank_append_cons hr]
    rfl
  · cases h

/-- Whether a conditional splices, and where its bracket opens, is found in what is there. -/
theorem scanConditional_append {x : Lexeme} (h : scanConditional cs = .ok (x, rest)) :
    scanConditional (cs ++ u) = .ok (x, rest ++ u) := by
  cases cs with
  | nil => cases h
  | cons c cs =>
    by_cases hc : c = '@'
    · subst hc
      rw [scanConditional_at] at h
      rw [List.cons_append, scanConditional_at, scanBranches_append h]
    · rw [scanConditional_cons hc] at h
      rw [List.cons_append, scanConditional_cons hc, ← List.cons_append, scanBranches_append h]

/-- The namespace of a map is found there as well. -/
theorem scanQualifying_append {x : Lexeme} (h : scanQualifying cs = .ok (x, rest)) :
    scanQualifying (cs ++ u) = .ok (x, rest ++ u) := by
  rw [scanQualifying] at h
  split at h
  · next r hr =>
    cases h
    have hskip : skipBlank (afterToken cs) ≠ [] := by
      rw [hr]
      exact List.cons_ne_nil _ _
    have hparted : Parted (afterToken cs) u := by
      refine .inl fun hnil => hskip ?_
      rw [hnil]
      rfl
    rw [scanQualifying, afterToken_append hparted, skipBlank_append _ hskip, hr,
      token_append hparted]
    rfl
  · cases h

/-- A sign that nothing else is marked with tags the next form. -/
theorem scanDispatch_cons {c : Char} (h : c ∉ ['{', '_', '"', '\'', '(', '?', '#', ':', '!', '=']) :
    scanDispatch (c :: cs) = .ok (.tag, c :: cs) := by
  simp only [List.mem_cons, List.not_mem_nil, or_false, not_or] at h
  rw [scanDispatch]
  all_goals simp [h]

/-- What starts with the number sign is the same with more text, if its token has ended and there is
something after a discarding. -/
theorem scanDispatch_append {x : Lexeme} (h : scanDispatch cs = .ok (x, rest))
    (hu : Parted rest u) (hgap : x = .gap → rest ≠ []) :
    scanDispatch (cs ++ u) = .ok (x, rest ++ u) := by
  unfold scanDispatch at h
  split at h
  · cases h
    rfl
  · cases h
    rfl
  · next cs =>
    obtain ⟨s, hs, rfl⟩ := exists_of_map_ok (f := fun s => Lexeme.atom (.regex (String.ofList s))) h
    rw [List.cons_append, scanDispatch, regexBody_append hs]
    rfl
  · cases h
    rfl
  · cases h
    rfl
  · exact scanConditional_append h
  · obtain ⟨rfl, hall⟩ := scanSymbolicValue_eq_ok h
    rw [List.cons_append, scanDispatch, hall _ (token_append hu), afterToken_append hu]
  · exact scanQualifying_append h
  · next cs =>
    -- a `#!` line that ends the text would go on with `u`, but something is left after this one
    cases h
    rw [List.cons_append, scanDispatch, Text.afterLine_append (hgap rfl)]
  · cases h
  · next h₁ h₂ h₃ h₄ h₅ h₆ h₇ h₈ h₉ h₁₀ =>
    cases h
    cases cs with
    | nil =>
      -- a sign that ends the text stays a tag, as a line feed does not mark it otherwise
      obtain ⟨b, rfl⟩ := List.head?_eq_some_iff.1 (hu.resolve_left fun h => h rfl)
      rfl
    | cons c cs =>
      refine scanDispatch_cons ?_
      simp only [List.mem_cons, List.not_mem_nil, or_false]
      rintro (rfl | rfl | rfl | rfl | rfl | rfl | rfl | rfl | rfl | rfl)
      · exact h₁ cs rfl
      · exact h₂ cs rfl
      · exact h₃ cs rfl
      · exact h₄ cs rfl
      · exact h₅ cs rfl
      · exact h₆ cs rfl
      · exact h₇ cs rfl
      · exact h₈ cs rfl
      · exact h₉ cs rfl
      · exact h₁₀ cs rfl

/-! ## All lexemes -/

/-- The characters that a literal or a mark starts with. -/
def marks : List Char :=
  ['(', '[', '{', ')', ']', '}', '"', '\\', ':', '\'', '\x60', '~', '@', '^', '#']

/-- The datum of a token does not depend on the text after it. -/
theorem atomOf_eq_ok {t rest rest' : List Char} {d : Datum} (h : atomOf t rest = .ok d) :
    atomOf t rest' = .ok d := by
  unfold atomOf at h ⊢
  split_ifs at h with h₁ h₂ h₃ h₄ h₅
  · rw [if_neg h₁, if_pos h₂, h]
  · rw [if_neg h₁, if_neg h₂, if_pos h₃, h]
  · rw [if_neg h₁, if_neg h₂, if_neg h₃, if_pos h₄, h]
  · rw [if_neg h₁, if_neg h₂, if_neg h₃, if_neg h₄, if_pos h₅]
    split at h
    · exact h
    · cases h
    · cases h
  · rw [if_neg h₁, if_neg h₂, if_neg h₃, if_neg h₄, if_neg h₅, h]

/-- Any other character starts a token. -/
theorem scan_of_not_mem {c : Char} (h : c ∉ marks) :
    scan c cs = match atomOf (token (c :: cs)) (afterToken (c :: cs)) with
      | .ok d => .ok (.atom d, afterToken (c :: cs))
      | .error e => .error e := by
  unfold scan
  split
  case h_16 => rfl
  all_goals exact absurd (by decide) h

theorem scan_tilde (h : cs.head? ≠ some '@') : scan '~' cs = .ok (.wrapping "unquote", cs) := by
  unfold scan
  split
  case h_12 =>
    split
    · exact absurd rfl h
    · rfl
  all_goals contradiction

/-- More text does not change a lexeme whose token has ended. A discarding is told from others only
by what follows it, which is why it is left out at the end of the text. -/
theorem scan_append {c : Char} {x : Lexeme} (h : scan c cs = .ok (x, rest))
    (hu : Parted rest u) (hgap : x = .gap → rest ≠ []) :
    scan c (cs ++ u) = .ok (x, rest ++ u) := by
  by_cases hc : c ∈ marks
  · unfold scan at h
    split at h
    case h_7 =>
      obtain ⟨s, hs, rfl⟩ := exists_of_map_ok (f := fun s => Lexeme.atom (.str (String.ofList s))) h
      change (stringBody (cs ++ u) (cs ++ u)).map _ = _
      rw [stringBody_append (cs ++ u) hs]
      rfl
    case h_8 => exact scanCharacter_append h hu
    case h_9 => exact scanKeyword_append h hu
    case h_12 =>
      -- `~` becomes `~@` if `u` starts with the second mark, which a new line does not
      split at h
      · cases h
        rfl
      · next hat =>
        cases h
        refine scan_tilde fun hhead => ?_
        cases cs with
        | nil =>
          rw [List.nil_append, hu.resolve_left fun h => h rfl] at hhead
          cases hhead
        | cons c cs => exact hat cs (by cases hhead; rfl)
    case h_15 => exact scanDispatch_append h hu hgap
    case h_16 => simp_all [marks]
    all_goals
      cases h
      rfl
  · rw [scan_of_not_mem hc] at h
    split at h
    · next d hd =>
      cases h
      rw [scan_of_not_mem hc, ← List.cons_append, token_append hu, afterToken_append hu,
        atomOf_eq_ok hd]
    · cases h

/-! ## What lexemes are -/

/-- Which lexeme is taken from `c :: cs`, and what is left after it: one case for each way in which
a lexeme starts. -/
inductive Scans : Char → List Char → Lexeme → List Char → Prop
  | opening {c : Char} {cs : List Char} {b : Bracket}
      (h : (c, b) ∈ [('(', .round), ('[', .square), ('{', .curly)]) : Scans c cs (.opening b) cs
  | closing {c : Char} {cs : List Char} (h : c ∈ [')', ']', '}']) : Scans c cs (.closing c) cs
  | string {cs s rest : List Char} (h : stringBody cs cs = .ok (s, rest)) :
      Scans '"' cs (.atom (.str (String.ofList s))) rest
  | character {c x : Char} {cs : List Char}
      (h : character (c :: token cs) (afterToken cs) = .ok x) :
      Scans '\\' (c :: cs) (.atom (.str (String.singleton x))) (afterToken cs)
  | keyword {cs : List Char} (h : token (dropColon cs) ≠ []) :
      Scans ':' cs (.atom (.keyword (.parse (String.ofList (token (dropColon cs))))))
        (afterToken (dropColon cs))
  | wrapping {c : Char} {cs : List Char} {head : String}
      (h : (c, head) ∈ [('\'', "quote"), ('\x60', "syntax-quote"), ('@', "deref")]) :
      Scans c cs (.wrapping head) cs
  | unquote {cs : List Char} : Scans '~' cs (.wrapping "unquote") cs
  | unquoteSplicing {cs : List Char} : Scans '~' ('@' :: cs) (.wrapping "unquote-splicing") cs
  | metadata {cs : List Char} : Scans '^' cs .metadata cs
  | set {cs : List Char} : Scans '#' ('{' :: cs) (.opening .set) cs
  | function {cs : List Char} : Scans '#' ('(' :: cs) (.opening .function) cs
  | discard {cs : List Char} : Scans '#' ('_' :: cs) .discard cs
  | regex {cs s rest : List Char} (h : regexBody cs = .ok (s, rest)) :
      Scans '#' ('"' :: cs) (.atom (.regex (String.ofList s))) rest
  | var {cs : List Char} : Scans '#' ('\'' :: cs) (.wrapping "var") cs
  | conditional {cs rest : List Char} {splicing : Bool}
      (h : scanConditional cs = .ok (.opening (.conditional splicing), rest)) :
      Scans '#' ('?' :: cs) (.opening (.conditional splicing)) rest
  | symbolicValue {cs : List Char} {v : Binary64}
      (h : scanSymbolicValue cs = .ok (.atom (.float v), afterToken cs)) :
      Scans '#' ('#' :: cs) (.atom (.float v)) (afterToken cs)
  | qualifying {cs rest : List Char} (h : skipBlank (afterToken cs) = '{' :: rest) :
      Scans '#' (':' :: cs) (.opening (.qualifying (String.ofList (token cs)))) rest
  | gap {cs : List Char} : Scans '#' ('!' :: cs) .gap (Text.afterLine cs)
  | tag {cs : List Char} : Scans '#' cs .tag cs
  | token {c : Char} {cs : List Char} {d : Datum} (hc : c ∉ marks)
      (h : atomOf (token (c :: cs)) (afterToken (c :: cs)) = .ok d) :
      Scans c cs (.atom d) (afterToken (c :: cs))

/-- A conditional opens a bracket, and is nothing else. -/
theorem exists_of_scanConditional {x : Lexeme} (h : scanConditional cs = .ok (x, rest)) :
    ∃ splicing, x = .opening (.conditional splicing) := by
  unfold scanConditional at h
  dsimp only at h
  split at h <;> cases h
  exact ⟨_, rfl⟩

/-- A symbolic value is a number, and a whole token. -/
theorem exists_of_scanSymbolicValue {x : Lexeme} (h : scanSymbolicValue cs = .ok (x, rest)) :
    (∃ v, x = .atom (.float v)) ∧ rest = afterToken cs := by
  unfold scanSymbolicValue at h
  dsimp only at h
  split_ifs at h <;> cases h <;> exact ⟨⟨_, rfl⟩, rfl⟩

/-- What starts with the number sign is one of the lexemes that do. -/
theorem scans_of_scanDispatch {x : Lexeme} (h : scanDispatch cs = .ok (x, rest)) :
    Scans '#' cs x rest := by
  unfold scanDispatch at h
  split at h
  · cases h
    exact .set
  · cases h
    exact .discard
  · next cs =>
    obtain ⟨s, hs, rfl⟩ := exists_of_map_ok (f := fun s => Lexeme.atom (.regex (String.ofList s))) h
    exact .regex hs
  · cases h
    exact .var
  · cases h
    exact .function
  · obtain ⟨splicing, rfl⟩ := exists_of_scanConditional h
    exact .conditional h
  · obtain ⟨⟨v, rfl⟩, rfl⟩ := exists_of_scanSymbolicValue h
    exact .symbolicValue h
  · rw [scanQualifying] at h
    split at h <;> cases h
    next hskip => exact .qualifying hskip
  · cases h
    exact .gap
  · cases h
  · cases h
    exact .tag

/-- What is scanned is one of these. The relation is what later proofs go by, so that the scanner is
unfolded here only. -/
theorem scans_of_scan {c : Char} {x : Lexeme} (h : scan c cs = .ok (x, rest)) :
    Scans c cs x rest := by
  by_cases hc : c ∈ marks
  · unfold scan at h
    split at h
    case h_1 | h_2 | h_3 =>
      cases h
      exact .opening (by simp)
    case h_4 | h_5 | h_6 =>
      cases h
      exact .closing (by simp)
    case h_7 =>
      obtain ⟨s, hs, rfl⟩ := exists_of_map_ok (f := fun s => Lexeme.atom (.str (String.ofList s))) h
      exact .string hs
    case h_8 =>
      unfold scanCharacter at h
      split at h
      · cases h
      · split at h <;> cases h
        next hx => exact .character hx
    case h_9 =>
      unfold scanKeyword at h
      split at h <;> cases h
      next hname => exact .keyword hname
    case h_10 | h_11 | h_13 =>
      cases h
      exact .wrapping (by simp)
    case h_12 =>
      split at h <;> cases h
      · exact .unquoteSplicing
      · exact .unquote
    case h_14 =>
      cases h
      exact .metadata
    case h_15 => exact scans_of_scanDispatch h
    case h_16 => simp_all [marks]
  · rw [scan_of_not_mem hc] at h
    split at h <;> cases h
    next hd => exact .token hc hd

/-- The heads of the lists that are written as a mark before a form. -/
def wrappingHeads : List String :=
  ["quote", "syntax-quote", "unquote", "unquote-splicing", "deref", "var"]

/-- The datum is written as one lexeme, and nothing lies in it. -/
def isLiteral : Datum → Bool
  | .nil | .bool _ | .int _ | .float _ | .ratio _ | .str _ | .keyword _ | .regex _ => true
  | .symbol _ [] => true
  | _ => false

/-- A literal has no elements. -/
theorem sequence?_of_isLiteral {d : Datum} (h : isLiteral d = true) : d.sequence? = none := by
  cases d <;> first | rfl | cases h

/-- What a lexeme that is taken from `c :: cs` can be: an atom is a literal, a closing delimiter is
a single character, a mark puts one of a few symbols before the next form, and a line that reads as
a comment does starts with its two marks. -/
def Lexeme.IsFrom (c : Char) (cs rest : List Char) : Lexeme → Prop
  | .atom d => isLiteral d = true
  | .closing delimiter => c = delimiter ∧ c ∈ [')', ']', '}'] ∧ rest = cs
  | .wrapping head => head ∈ wrappingHeads
  | .gap => c = '#' ∧ ∃ line, cs = '!' :: line ∧ rest = Text.afterLine line
  | _ => True

variable {c : Char}

/-- Numbers are literals. -/
theorem isLiteral_of_number? {t : List Char} {d : Datum} (h : number? t = some (.ok d)) :
    isLiteral d = true := by
  unfold number? at h
  dsimp only at h
  split at h
  · cases h
    rfl
  · cases h
  · split at h
    · cases h
      rfl
    · obtain ⟨r, -, hr⟩ := Option.map_eq_some_iff.1 h
      cases r <;> cases hr
      rfl

/-- What a token stands for is a literal, whatever its kind. -/
theorem isLiteral_of_atomOf {t : List Char} {d : Datum} (h : atomOf t rest = .ok d) :
    isLiteral d = true := by
  unfold atomOf at h
  split_ifs at h
  · cases h
    rfl
  · cases h
    rfl
  · cases h
    rfl
  · split at h <;> cases h
    next hnumber => exact isLiteral_of_number? hnumber
  · cases h
    rfl

/-- A lexeme comes from the character that it starts with and the text up to the rest. -/
theorem scan_isFrom {x : Lexeme} (h : scan c cs = .ok (x, rest)) : x.IsFrom c cs rest := by
  cases scans_of_scan h with
  | closing hmark => exact ⟨rfl, hmark, rfl⟩
  | wrapping hmark =>
    have hheads : ∀ p ∈ [('\'', "quote"), ('\x60', "syntax-quote"), ('@', "deref")],
        p.2 ∈ wrappingHeads := by
      decide
    exact hheads _ hmark
  | unquote | unquoteSplicing | var => simp [Lexeme.IsFrom, wrappingHeads]
  | @gap line => exact ⟨rfl, line, rfl, rfl⟩
  | token hc hd => exact isLiteral_of_atomOf hd
  | opening | metadata | set | function | discard | conditional | qualifying | tag => trivial
  | string | character | keyword | regex | symbolicValue => rfl

end BuildFiles.Reader
