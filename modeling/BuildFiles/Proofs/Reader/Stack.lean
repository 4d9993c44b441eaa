import BuildFiles.Reader.Forms
import BuildFiles.Proofs.Reader.Lexeme

/-!
# Steps in a longer text

Reading is a chain of steps, each made by the next lexeme: `advance_of_scan` takes it apart at the
first one. A step that succeeds is the same when more text follows (`push_append`) and when there
are more forms around (`push_over`).
-/

namespace BuildFiles.Reader

variable {features : List String} {cs cs' rest u text : List Char} {frames base : List Frame}

/-! ## One step and the rest -/

/-- What a reading comes to after a step, before the text `rest`. -/
def resume (features : List String) (rest : List Char) :
    Except Stop Progress → Except Stop (Option (Datum × List Char))
  | .error stop => .error stop
  | .ok (.complete d) => .ok (some (d, rest))
  | .ok (.pending frames) => advance features frames rest

/-- What a reading comes to at the end of the text. -/
theorem advance_of_end (h : skipBlank cs = []) :
    advance features frames cs = match endFault? frames with
      | some stop => .error stop
      | none => .ok none := by
  rw [advance]
  split
  · rfl
  · next c tail hskip =>
    rw [h] at hskip
    cases hskip

/-- What a reading comes to where there is no lexeme. -/
theorem advance_of_scan_error {c : Char} {tail : List Char} {stop : Stop}
    (hskip : skipBlank cs = c :: tail) (hscan : scan c tail = .error stop) :
    advance features frames cs = .error stop := by
  rw [advance]
  split
  · next hnil =>
    rw [hskip] at hnil
    cases hnil
  · next c' tail' hskip' =>
    obtain ⟨rfl, rfl⟩ := List.cons.inj (hskip.symm.trans hskip')
    split
    · next stop' hstop =>
      rw [hscan] at hstop
      cases hstop
      rfl
    · next hstop =>
      rw [hscan] at hstop
      cases hstop

/-- A lexeme makes a step, and the reading goes on after it, with the frames that the step leaves
and less text than before. -/
theorem advance_of_scan {c : Char} {tail : List Char} {x : Lexeme}
    (hskip : skipBlank cs = c :: tail) (hscan : scan c tail = .ok (x, rest)) :
    advance features frames cs = resume features rest (push features rest frames x) := by
  rw [advance]
  split
  · next hnil =>
    rw [hskip] at hnil
    cases hnil
  · next c' tail' hskip' =>
    obtain ⟨rfl, rfl⟩ := List.cons.inj (hskip.symm.trans hskip')
    split
    · next hstop =>
      rw [hscan] at hstop
      cases hstop
    · next hok =>
      rw [hscan] at hok
      cases hok
      split
      · next hpush => rw [hpush, resume]
      · next hpush => rw [hpush, resume]
      · next hpush => rw [hpush, resume]

/-- Only what comes after the blanks and comments counts. -/
theorem advance_congr (h : skipBlank cs = skipBlank cs') :
    advance features frames cs = advance features frames cs' := by
  rcases hskip : skipBlank cs' with _ | ⟨c, tail⟩
  · rw [advance_of_end (h.trans hskip), advance_of_end hskip]
  · rcases hscan : scan c tail with stop | ⟨x, rest⟩
    · rw [advance_of_scan_error (h.trans hskip) hscan, advance_of_scan_error hskip hscan]
    · rw [advance_of_scan (h.trans hskip) hscan, advance_of_scan hskip hscan]

/-! ## One form and the rest -/

theorem formsFrom_of_error {stop : Stop} (h : advance features [] cs = .error stop) :
    formsFrom features cs = ([], some stop) := by
  rw [formsFrom]
  split <;> simp_all

theorem formsFrom_of_none (h : advance features [] cs = .ok none) :
    formsFrom features cs = ([], none) := by
  rw [formsFrom]
  split <;> simp_all

theorem formsFrom_of_some {d : Datum} (h : advance features [] cs = .ok (some (d, rest))) :
    formsFrom features cs = (d :: (formsFrom features rest).1, (formsFrom features rest).2) := by
  rw [formsFrom]
  split <;> simp_all

theorem formsFrom_congr (h : advance features [] cs = advance features [] cs') :
    formsFrom features cs = formsFrom features cs' := by
  rcases hcs' : advance features [] cs' with stop | _ | ⟨d, rest⟩
  · rw [formsFrom_of_error (h.trans hcs'), formsFrom_of_error hcs']
  · rw [formsFrom_of_none (h.trans hcs'), formsFrom_of_none hcs']
  · rw [formsFrom_of_some (h.trans hcs'), formsFrom_of_some hcs']

/-! ## What more text does not change -/

/-- The frame when the text `u` follows. -/
def Frame.before (u : List Char) : Frame → Frame
  | .collecting b opened items => .collecting b (opened ++ u) items
  | .wrapping head => .wrapping head
  | .metadata => .metadata
  | .target held => .target held
  | .discard => .discard
  | .tag => .tag
  | .tagged n attached => .tagged n attached

/-- The progress when the text `u` follows. -/
def Progress.before (u : List Char) : Progress → Progress
  | .complete d => .complete d
  | .pending frames => .pending (frames.map (Frame.before u))

theorem attach_eq_ok {metadata : Datum} {target item : Item} (rest' : List Char)
    (h : attach metadata target rest = .ok item) : attach metadata target rest' = .ok item := by
  unfold attach at h ⊢
  split
  · next hnone =>
    rw [hnone] at h
    cases h
  · next es hsome =>
    rw [hsome] at h
    exact h

/-- Handing an item on does not depend on the text that comes after, which only moves the places at
which frames have started further from the end. -/
theorem deliver_append {item : Item} {p : Progress} (h : deliver rest item frames = .ok p) :
    deliver (rest ++ u) item (frames.map (Frame.before u)) = .ok (p.before u) := by
  -- the text that is left is told in faults only, and a step that succeeds meets none
  fun_induction deliver rest item frames with
  | case1 frames =>
    cases h
    rw [deliver]
    rfl
  | case2 d => cases h; rfl
  | case3 ds => cases h
  | case4 d b opened items frames => cases h; rfl
  | case5 ds b opened items frames => cases h; rfl
  | case6 item head frames hitem ih =>
    rw [List.map_cons, Frame.before, deliver]
    · exact ih h
    · exact hitem
  | case7 item frames hitem =>
    cases h
    rw [List.map_cons, Frame.before, deliver]
    · rfl
    · exact hitem
  | case8 item metadata frames hitem result hattach ih =>
    rw [List.map_cons, Frame.before, deliver]
    · rw [attach_eq_ok (rest ++ u) hattach]
      exact ih h
    · exact hitem
  | case9 => cases h
  | case10 item frames hitem =>
    cases h
    rw [List.map_cons, Frame.before, deliver]
    · rfl
    · exact hitem
  | case11 item frames hitem n attached hdatum =>
    cases h
    rw [List.map_cons, Frame.before, deliver]
    · rw [hdatum]
      rfl
    · exact hitem
  | case12 => cases h
  | case13 item n attached frames hitem ih =>
    rw [List.map_cons, Frame.before, deliver]
    · exact ih h
    · exact hitem

theorem mapOf_eq_ok {items : List Datum} {es : Entries Datum Datum} (rest' : List Char)
    (h : mapOf items rest = .ok es) : mapOf items rest' = .ok es := by
  unfold mapOf at h ⊢
  split_ifs at h with hodd
  rw [if_neg hodd]
  exact h

theorem select_eq_ok {splicing : Bool} {branches : List (Datum × Datum)} {item : Item}
    (rest' : List Char) (h : select features splicing rest branches = .ok item) :
    select features splicing rest' branches = .ok item := by
  induction branches with
  | nil => exact h
  | cons branch branches ih =>
    obtain ⟨feature, form⟩ := branch
    rw [select] at h ⊢
    split at h
    · cases h
    · split_ifs at h with hon hsplicing
      · rw [if_pos hon, if_pos hsplicing]
        split at h
        · exact h
        · cases h
      · rw [if_pos hon, if_neg hsplicing]
        exact h
      · rw [if_neg hon]
        exact ih h

/-- What a bracket comes to does not depend on the text that is left; that is told in faults
only. -/
theorem closed_eq_ok {b : Bracket} {items : List Datum} {item : Item} (rest' : List Char)
    (h : closed features b items rest = .ok item) : closed features b items rest' = .ok item := by
  cases b with
  | round => exact h
  | square => exact h
  | function => exact h
  | set => exact h
  | curly =>
    rcases hes : mapOf items rest with stop | es
    · rw [closed, hes] at h
      cases h
    · rw [closed, hes] at h
      rw [closed, mapOf_eq_ok rest' hes]
      exact h
  | qualifying space =>
    rcases hes : mapOf items rest with stop | es
    · rw [closed, hes] at h
      cases h
    · rw [closed, hes] at h
      rw [closed, mapOf_eq_ok rest' hes]
      exact h
  | conditional splicing =>
    rw [closed] at h ⊢
    split_ifs at h with hodd
    rw [if_neg hodd]
    exact select_eq_ok rest' h

theorem close_append {delimiter : Char} {p : Progress}
    (h : close features delimiter rest frames = .ok p) :
    close features delimiter (rest ++ u) (frames.map (Frame.before u)) = .ok (p.before u) := by
  unfold close at h
  split at h
  · next b opened items frames =>
    split_ifs at h with hcloser
    split at h
    · next item hitem =>
      rw [List.map_cons, Frame.before, close, if_pos hcloser, closed_eq_ok (rest ++ u) hitem]
      exact deliver_append h
    · cases h
  · cases h

/-- A step that succeeds is the same when more text follows. -/
theorem push_append {x : Lexeme} {p : Progress} (h : push features rest frames x = .ok p) :
    push features (rest ++ u) (frames.map (Frame.before u)) x = .ok (p.before u) := by
  cases x with
  | atom d => exact deliver_append h
  | closing delimiter => exact close_append h
  | _ =>
    cases h
    rfl

/-! ## What the forms around do not change -/

/-- The progress inside of the frames `base`, which take in a form that is complete. -/
def Progress.over (rest : List Char) (base : List Frame) : Progress → Except Stop Progress
  | .complete d => deliver rest (.form d) base
  | .pending frames => .ok (.pending (frames ++ base))

/-- Handing an item on over other frames is the same as without them, if it does not complete all
frames, and else the item is handed on to the others. -/
theorem deliver_over {item : Item} {p : Progress} (h : deliver rest item frames = .ok p) :
    deliver rest item (frames ++ base) = p.over rest base := by
  -- by the frames that the item is handed through, up to the one that takes it or out of all
  fun_induction deliver rest item frames with
  | case1 frames =>
    cases h
    rw [deliver]
    rfl
  | case2 d => cases h; rfl
  | case3 ds => cases h
  | case4 d b opened items frames => cases h; rfl
  | case5 ds b opened items frames => cases h; rfl
  | case6 item head frames hitem ih =>
    rw [List.cons_append, deliver]
    · exact ih h
    · exact hitem
  | case7 item frames hitem =>
    cases h
    rw [List.cons_append, deliver]
    · rfl
    · exact hitem
  | case8 item metadata frames hitem result hattach ih =>
    rw [List.cons_append, deliver]
    · rw [hattach]
      exact ih h
    · exact hitem
  | case9 => cases h
  | case10 item frames hitem =>
    cases h
    rw [List.cons_append, deliver]
    · rfl
    · exact hitem
  | case11 item frames hitem n attached hdatum =>
    cases h
    rw [List.cons_append, deliver]
    · rw [hdatum]
      rfl
    · exact hitem
  | case12 => cases h
  | case13 item n attached frames hitem ih =>
    rw [List.cons_append, deliver]
    · exact ih h
    · exact hitem

theorem close_over {delimiter : Char} {p : Progress}
    (h : close features delimiter rest frames = .ok p) :
    close features delimiter rest (frames ++ base) = p.over rest base := by
  unfold close at h
  split at h
  · next b opened items frames =>
    split_ifs at h with hcloser
    split at h
    · next item hitem =>
      rw [List.cons_append, close, if_pos hcloser, hitem]
      exact deliver_over h
    · cases h
  · cases h

/-- A step that succeeds is the same inside of more frames. -/
theorem push_over {x : Lexeme} {p : Progress} (h : push features rest frames x = .ok p) :
    push features rest (frames ++ base) x = p.over rest base := by
  cases x with
  | atom d => exact deliver_over h
  | closing delimiter => exact close_over h
  | _ =>
    cases h
    rfl

end BuildFiles.Reader
