import BuildFiles.Namespace.Source
import BuildFiles.Proofs.Reader.Remainder

/-!
# What the features do not change

The features decide about nothing but the reader conditionals. Where the mark of one is nowhere in a
text, no bracket of such a conditional is ever opened, so each step is the same whatever is on
(`push_features`), and so is what the text comes to, its faults and their lines included
(`forms_eq_of_not_hasConditional`).
-/

namespace BuildFiles.Reader

variable {cs rest : List Char} {frames frames' : List Frame} {x : Lexeme}

/-- The mark of a reader conditional is somewhere in the text. -/
def HasConditional (cs : List Char) : Prop := ['#', '?'] <:+: cs

instance (cs : List Char) : Decidable (HasConditional cs) :=
  inferInstanceAs (Decidable (['#', '?'] <:+: cs))

theorem HasConditional.mono {cs' : List Char} (h : HasConditional cs) (hcs : cs <:+ cs') :
    HasConditional cs' :=
  h.trans hcs.isInfix

/-! ## Brackets that are no conditionals -/

/-- The bracket is not that of a reader conditional. -/
def Bracket.IsUnconditional : Bracket → Prop
  | .conditional _ => False
  | _ => True

/-- The form under construction is not a reader conditional. -/
def Frame.IsUnconditional : Frame → Prop
  | .collecting b _ _ => b.IsUnconditional
  | _ => True

/-- The lexeme does not open a reader conditional. -/
def Lexeme.IsUnconditional : Lexeme → Prop
  | .opening b => b.IsUnconditional
  | _ => True

/-- Only the mark opens a reader conditional. -/
theorem scan_isUnconditional {c : Char} (hcs : ¬ HasConditional (c :: cs))
    (h : scan c cs = .ok (x, rest)) : x.IsUnconditional := by
  cases scans_of_scan h with
  | @conditional tail => exact hcs (List.prefix_append ['#', '?'] tail).isInfix
  | opening hmark =>
    simp only [List.mem_cons, Prod.mk.injEq, List.not_mem_nil, or_false] at hmark
    rcases hmark with ⟨-, rfl⟩ | ⟨-, rfl⟩ | ⟨-, rfl⟩ <;> trivial
  | _ => trivial

/-! ## Steps -/

/-- Handing an item on opens no frame, so no conditional comes up by it. -/
theorem deliver_isUnconditional {item : Item} (hframes : ∀ f ∈ frames, f.IsUnconditional)
    (h : deliver rest item frames = .ok (.pending frames')) :
    ∀ f ∈ frames', f.IsUnconditional := by
  -- an item is taken by a frame that is there, and leaves its bracket as it is
  fun_induction deliver rest item frames with
  | case1 frames =>
    cases h
    exact hframes
  | case2 => cases h
  | case3 => cases h
  | case4 | case5 =>
    cases h
    obtain ⟨hbracket, hframes⟩ := List.forall_mem_cons.1 hframes
    exact List.forall_mem_cons.2 ⟨hbracket, hframes⟩
  | case6 item head frames hitem ih => exact ih (List.forall_mem_cons.1 hframes).2 h
  | case7 | case11 =>
    cases h
    exact List.forall_mem_cons.2 ⟨trivial, (List.forall_mem_cons.1 hframes).2⟩
  | case8 item metadata frames hitem result hattach ih =>
    exact ih (List.forall_mem_cons.1 hframes).2 h
  | case9 => cases h
  | case10 =>
    cases h
    exact (List.forall_mem_cons.1 hframes).2
  | case12 => cases h
  | case13 item n attached frames hitem ih => exact ih (List.forall_mem_cons.1 hframes).2 h

theorem close_isUnconditional {features : List String} {delimiter : Char}
    (hframes : ∀ f ∈ frames, f.IsUnconditional)
    (h : close features delimiter rest frames = .ok (.pending frames')) :
    ∀ f ∈ frames', f.IsUnconditional := by
  unfold close at h
  split at h
  · split_ifs at h
    split at h
    · exact deliver_isUnconditional (List.forall_mem_cons.1 hframes).2 h
    · cases h
  · cases h

/-- Frames that are no conditionals stay such. -/
theorem push_isUnconditional {features : List String} (hx : x.IsUnconditional)
    (hframes : ∀ f ∈ frames, f.IsUnconditional)
    (h : push features rest frames x = .ok (.pending frames')) :
    ∀ f ∈ frames', f.IsUnconditional := by
  cases x with
  | atom d => exact deliver_isUnconditional hframes h
  | closing delimiter => exact close_isUnconditional hframes h
  | opening b =>
    cases h
    exact List.forall_mem_cons.2 ⟨hx, hframes⟩
  | gap =>
    cases h
    exact hframes
  | _ =>
    cases h
    exact List.forall_mem_cons.2 ⟨trivial, hframes⟩

theorem closed_features {b : Bracket} (hb : b.IsUnconditional) (items : List Datum)
    (features features' : List String) : closed features b items rest =
      closed features' b items rest := by
  cases b with
  | conditional splicing => exact hb.elim
  | _ => rfl

/-- A step is the same whatever is on unless it closes a conditional. -/
theorem push_features (hframes : ∀ f ∈ frames, f.IsUnconditional) (x : Lexeme)
    (features features' : List String) :
    push features rest frames x = push features' rest frames x := by
  cases x with
  | closing delimiter =>
    cases frames with
    | nil => rfl
    | cons f frames =>
      cases f with
      | collecting b opened items =>
        rw [push, push, close, close,
          closed_features (List.forall_mem_cons.1 hframes).1 items.reverse features features']
      | _ => rfl
  | _ => rfl

/-! ## Whole readings -/

/-- A reading that has met no conditional, and will meet none, is the same whatever is on. -/
theorem advance_features (hcs : ¬ HasConditional cs) (hframes : ∀ f ∈ frames, f.IsUnconditional)
    (features features' : List String) :
    advance features frames cs = advance features' frames cs := by
  fun_induction advance features frames cs with
  | case1 frames cs hskip stop hend => rw [advance_of_end hskip, hend]
  | case2 frames cs hskip hend => rw [advance_of_end hskip, hend]
  | case3 frames cs c tail hskip stop hscan => rw [advance_of_scan_error hskip hscan]
  | case4 frames cs c tail hskip x rest hscan stop hpush =>
    rw [advance_of_scan hskip hscan, push_features hframes x features' features, hpush, resume]
  | case5 frames cs c tail hskip x rest hscan d hpush =>
    rw [advance_of_scan hskip hscan, push_features hframes x features' features, hpush, resume]
  | case6 frames cs c tail hskip x rest hscan frames' hpush ih =>
    rw [advance_of_scan hskip hscan, push_features hframes x features' features, hpush, resume]
    have hx : x.IsUnconditional :=
      scan_isUnconditional (fun h => hcs (h.mono (hskip ▸ skipBlank_suffix cs))) hscan
    exact ih (fun h => hcs (h.mono (suffix_of_scan hskip hscan)))
      (push_isUnconditional hx hframes hpush)

theorem formsFrom_features (hcs : ¬ HasConditional cs) (features features' : List String) :
    formsFrom features cs = formsFrom features' cs := by
  have hadvance := advance_features hcs (List.forall_mem_nil _) features' features
  fun_induction formsFrom features cs with
  | case1 cs stop hstop => rw [formsFrom_of_error (hadvance.trans hstop)]
  | case2 cs hend => rw [formsFrom_of_none (hadvance.trans hend)]
  | case3 cs d rest hd ds stop hrest ih =>
    have hmore : ¬ HasConditional rest := fun h => hcs (h.mono (advance_suffix hd))
    rw [formsFrom_of_some (hadvance.trans hd),
      ← ih hmore (advance_features hmore (List.forall_mem_nil _) features' features), hrest]

/-- The features matter through reader conditionals only: a text without the mark of one comes to
the same forms and to the same fault whatever is on, and to the same declaration or fault on both
platforms. -/
theorem forms_eq_of_not_hasConditional {text : String} (h : ¬ HasConditional text.toList)
    (features features' : List String) :
    forms text features = forms text features' ∧
      ∀ source, Source.declaration? text source .clj = Source.declaration? text source .cljs := by
  refine ⟨by rw [forms, forms, formsFrom_features h features features'], fun source => ?_⟩
  have hfirst : first text Platform.clj.features = first text Platform.cljs.features := by
    rw [first, first, advance_features h (List.forall_mem_nil _)]
  rw [Source.declaration?, Source.declaration?, hfirst]

/-- A keyword that is a question mark, the characters of the mark in two tokens, and a closing
bracket that closes nothing, on the third line. -/
theorem forms_eq_of_not_hasConditional_unmatched :
    ¬ HasConditional "(ns a)\n [:? #_ x]\n ]".toList ∧
      forms "(ns a)\n [:? #_ x]\n ]" ["cljs", "x"] = forms "(ns a)\n [:? #_ x]\n ]" [] ∧
      (forms "(ns a)\n [:? #_ x]\n ]" []).2 = some (.malformed (.unmatchedDelimiter ']') 3) ∧
      Source.declaration? "(ns a)\n [:? #_ x]\n ]" "a.cljc" .clj =
        Source.declaration? "(ns a)\n [:? #_ x]\n ]" "a.cljc" .cljs := by
  have h : ¬ HasConditional "(ns a)\n [:? #_ x]\n ]".toList := by decide +kernel
  obtain ⟨hforms, hdeclaration⟩ := forms_eq_of_not_hasConditional h ["cljs", "x"] []
  exact ⟨h, hforms, by decide +kernel, hdeclaration "a.cljc"⟩

end BuildFiles.Reader
