import BuildFiles.Namespace.Source
import BuildFiles.Proofs.Reader.Stack

/-!
# The declaration at the head of a text

A declaration of a namespace is a list, and of all lists only those that are closed by a delimiter
start with the symbol `ns` (`isForm_of_deliver`). So nothing after that delimiter was looked at when
the declaration was read, and whatever follows leaves it as it is (`declaration?_append`).
-/

namespace BuildFiles

namespace Reader

variable {features : List String} {cs rest u : List Char} {frames : List Frame}

/-- The marks that the frames wait for a form after are some that a text can have. -/
def Frame.IsProper : Frame → Prop
  | .wrapping head => head ∈ wrappingHeads
  | _ => True

/-- An item that declares no namespace. -/
def Item.IsOther (item : Item) : Prop := ∀ d, item = .form d → Declaration.isForm d = false

theorem isForm_of_sequence? {d : Datum} (h : d.sequence? = none) :
    Declaration.isForm d = false := by
  unfold Declaration.isForm
  split
  · cases h
  · rfl

/-- A list that is written as a mark before a form declares no namespace. -/
theorem isForm_wrapped {head : String} (h : head ∈ wrappingHeads) (d : Datum) :
    Declaration.isForm (.list [.sym head, d]) = false := by
  simp only [wrappingHeads, List.mem_cons, List.not_mem_nil, or_false] at h
  rcases h with rfl | rfl | rfl | rfl | rfl | rfl <;> with_unfolding_all rfl

theorem isOther_of_attach {metadata : Datum} {target item : Item} (htarget : target.IsOther)
    (h : attach metadata target rest = .ok item) : item.IsOther := by
  unfold attach at h
  split at h
  · cases h
  · split at h <;> cases h
    · rintro d ⟨⟩
      rfl
    · exact htarget

/-- What an item that declares no namespace completes declares none: it becomes a part of the
innermost frame, and when that is complete, the result is handed on in the same way. -/
theorem isForm_of_deliver {item : Item} {d : Datum} (hframes : ∀ f ∈ frames, f.IsProper)
    (hitem : item.IsOther) (h : deliver rest item frames = .ok (.complete d)) :
    Declaration.isForm d = false := by
  fun_induction deliver rest item frames with
  | case1 => cases h
  | case2 d' =>
    cases h
    exact hitem d rfl
  | case3 => cases h
  | case4 => cases h
  | case5 => cases h
  | case6 item head frames hne ih =>
    obtain ⟨hhead, hframes⟩ := List.forall_mem_cons.1 hframes
    refine ih hframes ?_ h
    rintro d' ⟨⟩
    exact isForm_wrapped hhead item.datum
  | case7 => cases h
  | case8 item metadata frames hne result hattach ih =>
    exact ih (List.forall_mem_cons.1 hframes).2 (isOther_of_attach hitem hattach) h
  | case9 => cases h
  | case10 => cases h
  | case11 => cases h
  | case12 => cases h
  | case13 item n attached frames hne ih =>
    refine ih (List.forall_mem_cons.1 hframes).2 ?_ h
    rintro d' ⟨⟩
    rfl

/-- Handing an item on keeps frames proper, since it only adds to what they hold. -/
theorem isProper_of_deliver {item : Item} {frames' : List Frame}
    (hframes : ∀ f ∈ frames, f.IsProper) (h : deliver rest item frames = .ok (.pending frames')) :
    ∀ f ∈ frames', f.IsProper := by
  fun_induction deliver rest item frames with
  | case1 =>
    cases h
    exact hframes
  | case2 => cases h
  | case3 => cases h
  | case4 | case5 | case7 | case11 =>
    cases h
    exact List.forall_mem_cons.2 ⟨trivial, (List.forall_mem_cons.1 hframes).2⟩
  | case6 item head frames hne ih => exact ih (List.forall_mem_cons.1 hframes).2 h
  | case8 item metadata frames hne result hattach ih =>
    exact ih (List.forall_mem_cons.1 hframes).2 h
  | case9 => cases h
  | case10 =>
    cases h
    exact (List.forall_mem_cons.1 hframes).2
  | case12 => cases h
  | case13 item n attached frames hne ih => exact ih (List.forall_mem_cons.1 hframes).2 h

/-- Taking in a lexeme keeps frames proper, too; the frame that it may open starts where the lexeme
does. -/
theorem isProper_of_push {c : Char} {x : Lexeme} {frames' : List Frame} (hx : x.IsFrom c cs rest)
    (hframes : ∀ f ∈ frames, f.IsProper)
    (h : push features rest frames x = .ok (.pending frames')) : ∀ f ∈ frames', f.IsProper := by
  cases x with
  | atom d => exact isProper_of_deliver hframes h
  | closing delimiter =>
    change close features delimiter rest frames = _ at h
    unfold close at h
    split at h
    · split_ifs at h
      split at h
      · exact isProper_of_deliver (List.forall_mem_cons.1 hframes).2 h
      · cases h
    · cases h
  | wrapping head =>
    cases h
    exact List.forall_mem_cons.2 ⟨hx, hframes⟩
  | gap =>
    cases h
    exact hframes
  | _ =>
    cases h
    exact List.forall_mem_cons.2 ⟨trivial, hframes⟩

/-- The lexeme that completes the form of a declaration is a closing delimiter. -/
theorem exists_closing {c : Char} {x : Lexeme} {d : Datum} (hx : x.IsFrom c cs rest)
    (hframes : ∀ f ∈ frames, f.IsProper) (hd : Declaration.isForm d = true)
    (h : push features rest frames x = .ok (.complete d)) :
    ∃ delimiter, x = .closing delimiter := by
  cases x with
  | closing delimiter => exact ⟨delimiter, rfl⟩
  | atom d' =>
    have hother : (Item.form d').IsOther := by
      rintro d ⟨⟩
      exact isForm_of_sequence? (sequence?_of_isLiteral hx)
    rw [isForm_of_deliver hframes hother h] at hd
    cases hd
  | _ => cases h

theorem scan_closing {delimiter : Char} (h : delimiter ∈ [')', ']', '}']) (cs : List Char) :
    scan delimiter cs = .ok (.closing delimiter, cs) := by
  simp only [List.mem_cons, List.not_mem_nil, or_false] at h
  rcases h with rfl | rfl | rfl <;> rfl

/-- A form that declares a namespace is read all the same when any text follows. -/
theorem advance_append_of_isForm {d : Datum} (hframes : ∀ f ∈ frames, f.IsProper)
    (hd : Declaration.isForm d = true)
    (h : advance features frames cs = .ok (some (d, rest))) (u : List Char) :
    advance features (frames.map (Frame.before u)) (cs ++ u) = .ok (some (d, rest ++ u)) := by
  fun_induction advance features frames cs with
  | case1 => cases h
  | case2 => cases h
  | case3 => cases h
  | case4 => cases h
  | case5 frames cs c tail hskip x rest' hscan d' hpush =>
    cases h
    -- a delimiter is a whole lexeme, so this one is the same even if nothing was left after it
    obtain ⟨delimiter, rfl⟩ := exists_closing (scan_isFrom hscan) hframes hd hpush
    obtain ⟨rfl, hdelimiter, rfl⟩ := scan_isFrom hscan
    rw [advance_of_scan (skipBlank_append_cons hskip) (scan_closing hdelimiter _),
      push_append hpush]
    rfl
  | case6 frames cs c tail hskip x rest' hscan frames' hpush ih =>
    -- frames are pending, so a form was still read from what was left
    have hrest : rest' ≠ [] := by
      rintro rfl
      rw [advance_of_end rfl] at h
      split at h <;> cases h
    rw [advance_of_scan (skipBlank_append_cons hskip)
      (scan_append hscan (.inl hrest) fun _ => hrest), push_append hpush]
    exact ih (isProper_of_push (scan_isFrom hscan) hframes hpush) h

theorem first_append_of_isForm {text : String} {form : Datum}
    (hform : Declaration.isForm form = true) (h : first text features = .ok form) (u : String) :
    first (text ++ u) features = .ok form := by
  rw [first] at h
  split at h
  · next d rest hd =>
    cases h
    have hboth := advance_append_of_isForm (by simp) hform hd u.toList
    rw [List.map_nil] at hboth
    rw [first, String.toList_append, hboth]
  · -- a text without a form is read as nil, which declares nothing
    cases h
    cases hform
  · cases h

end Reader

namespace Source

/-- Whatever follows a text that starts with a declaration, readable or not, the declaration is the
same. -/
theorem declaration?_append {text source : String} {platform : Platform} {d : Declaration}
    (h : declaration? text source platform = .ok (some d)) (u : String) :
    declaration? (text ++ u) source platform = .ok (some d) := by
  rw [declaration?] at h
  split at h
  · cases h
  · next form hform =>
    split_ifs at h with hns
    · rw [declaration?, Reader.first_append_of_isForm hns hform u]
      exact (if_pos hns).trans h
    · cases h

/-- What follows may be text that cannot be read. -/
theorem declaration?_append_of_unclosed :
    ∃ d, d.requires = ["c.d"] ∧
      declaration? "(ns ^:lib a.b (:require c.d))" "b.clj" .clj = .ok (some d) ∧
      declaration? ("(ns ^:lib a.b (:require c.d))" ++ "junk) \"(") "b.clj" .clj =
        .ok (some d) := by
  have hd : ((declaration? "(ns ^:lib a.b (:require c.d))" "b.clj" .clj).toOption.join.any
      fun d => d.requires == ["c.d"]) = true := by
    decide +kernel
  rcases h : declaration? "(ns ^:lib a.b (:require c.d))" "b.clj" .clj with e | _ | d
  · rw [h] at hd
    cases hd
  · rw [h] at hd
    cases hd
  · rw [h] at hd
    exact ⟨d, eq_of_beq hd, rfl, declaration?_append h "junk) \"("⟩

end Source

end BuildFiles
