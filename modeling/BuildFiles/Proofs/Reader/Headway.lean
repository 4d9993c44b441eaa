import BuildFiles.Proofs.Reader.Recognition

/-!
# Every form makes headway

The forms of a text start and end inside of each other. `watch` is the reading of `advance` with a
record of that: at which place each form starts, inside of which others, and what it leaves when it
ends. A frame is a form that has started and has not ended, so a lexeme starts at most one form, and
ends as many as its item is handed through.

Each lexeme takes at least one character. So a form ends farther on than it starts, and starts
farther on than the forms around it (`progresses_of_watch`), and there are no more of them than
characters (`countP_isStart_le`).
-/

namespace BuildFiles.Reader

variable {features : List String} {cs rest text place : List Char} {places : List (List Char)}
  {frames : List Frame} {x : Lexeme} {item : Item} {stop : Stop}

/-! ## What happens while a text is read -/

/-- What happens while a text is read. Each place is told by the text that is left there. -/
inductive Event where
  /-- a form starts, inside of the forms that have started at the outer places, the innermost
  first -/
  | starts (place : List Char) (outer : List (List Char))
  /-- the form that has started at the place ends, and leaves the rest -/
  | ends (place rest : List Char)
  deriving DecidableEq

/-- A form starts. -/
def Event.isStart : Event → Bool
  | .starts .. => true
  | .ends .. => false

/-- A form ends. -/
def Event.isEnd (e : Event) : Bool := !e.isStart

/-- How many of the frames an item completes that is handed to them, one after the other. -/
def completions (rest : List Char) : Item → List Frame → Nat
  | .nothing, _ => 0
  | _, [] => 0
  | item, .wrapping head :: frames =>
    completions rest (.form (.list [.sym head, item.datum])) frames + 1
  | item, .target metadata :: frames =>
    match attach metadata item rest with
    | .ok result => completions rest result frames + 1
    | .error _ => 0
  | item, .tagged n attached :: frames =>
    completions rest (.form (.tagged n attached item.datum)) frames + 1
  | _, .discard :: _ => 1
  | _, .collecting .. :: _ | _, .metadata :: _ | _, .tag :: _ => 0

/-- The lexeme starts a form, as each does but the delimiter that closes the innermost frame. -/
def startsForm : List Frame → Lexeme → Bool
  | .collecting b _ _ :: _, .closing delimiter => b.closer != delimiter
  | _, _ => true

/-- How many forms end with a bracket that is closed. -/
def endsAtClose (features : List String) (delimiter : Char) (rest : List Char) : List Frame → Nat
  | .collecting b _ items :: frames =>
    if b.closer = delimiter then
      match closed features b items.reverse rest with
      | .ok item => completions rest item frames + 1
      | .error _ => 0
    else 0
  | _ => 0

/-- How many forms end with the lexeme: those that it completes, from the innermost one. -/
def endsWith (features : List String) (rest : List Char) (frames : List Frame) : Lexeme → Nat
  | .atom d => completions rest (.form d) frames + 1
  | .closing delimiter => endsAtClose features delimiter rest frames
  | .gap => 1
  | _ => 0

/-- The places of the forms that have started with the lexeme, and have not ended before it. -/
def begun (frames : List Frame) (places : List (List Char)) (place : List Char) (x : Lexeme) :
    List (List Char) :=
  if startsForm frames x then place :: places else places

/-- What happens with the lexeme at a place. -/
def happenings (features : List String) (frames : List Frame) (places : List (List Char))
    (place rest : List Char) (x : Lexeme) : List Event :=
  (if startsForm frames x then [.starts place places] else []) ++
    ((begun frames places place x).take (endsWith features rest frames x)).map (.ends · rest)

/-- The places of the forms that have not ended with the lexeme. -/
def remaining (features : List String) (frames : List Frame) (places : List (List Char))
    (place rest : List Char) (x : Lexeme) : List (List Char) :=
  (begun frames places place x).drop (endsWith features rest frames x)

/-- Read on as `advance` does, and tell what happens; the frames have started at the places. -/
def watch (features : List String) (frames : List Frame) (places : List (List Char))
    (cs : List Char) : List Event × Except Stop (Option (Datum × List Char)) :=
  match _hskip : skipBlank cs with
  | [] => ([], match endFault? frames with
    | some stop => .error stop
    | none => .ok none)
  | c :: tail =>
    match _hscan : scan c tail with
    | .error stop => ([.starts (c :: tail) places], .error stop)
    | .ok (x, rest) =>
      let events := happenings features frames places (c :: tail) rest x
      match push features rest frames x with
      | .error stop => (events, .error stop)
      | .ok (.complete d) => (events, .ok (some (d, rest)))
      | .ok (.pending frames') =>
        let more :=
          watch features frames' (remaining features frames places (c :: tail) rest x) rest
        (events ++ more.1, more.2)
termination_by cs.length
decreasing_by
  have h₁ := length_skipBlank_le cs
  have h₂ := scan_length _hscan
  rw [_hskip, List.length_cons] at h₁
  omega

theorem watch_of_end (h : skipBlank cs = []) :
    watch features frames places cs = ([], match endFault? frames with
      | some stop => .error stop
      | none => .ok none) := by
  rw [watch]
  split
  · rfl
  · next hskip =>
    rw [h] at hskip
    cases hskip

theorem watch_of_scan_error {c : Char} {tail : List Char} (hskip : skipBlank cs = c :: tail)
    (hscan : scan c tail = .error stop) :
    watch features frames places cs = ([.starts (c :: tail) places], .error stop) := by
  rw [watch]
  split
  · next hnil =>
    rw [hskip] at hnil
    cases hnil
  · next hskip' =>
    obtain ⟨rfl, rfl⟩ := List.cons.inj (hskip.symm.trans hskip')
    split
    · next hstop =>
      rw [hscan] at hstop
      cases hstop
      rfl
    · next hok =>
      rw [hscan] at hok
      cases hok

/-- How watching goes on after a lexeme: what happens at it comes first, and then what happens from
the frames that are left. -/
theorem watch_of_scan {c : Char} {tail : List Char} (hskip : skipBlank cs = c :: tail)
    (hscan : scan c tail = .ok (x, rest)) :
    watch features frames places cs =
      let events := happenings features frames places (c :: tail) rest x
      match push features rest frames x with
      | .error stop => (events, .error stop)
      | .ok (.complete d) => (events, .ok (some (d, rest)))
      | .ok (.pending frames') =>
        let more :=
          watch features frames' (remaining features frames places (c :: tail) rest x) rest
        (events ++ more.1, more.2) := by
  rw [watch]
  split
  · next hnil =>
    rw [hskip] at hnil
    cases hnil
  · next hskip' =>
    obtain ⟨rfl, rfl⟩ := List.cons.inj (hskip.symm.trans hskip')
    split
    · next hstop =>
      rw [hscan] at hstop
      cases hstop
    · next hok =>
      rw [hscan] at hok
      cases hok
      rfl

/-- Watching changes nothing of what a reading comes to. -/
theorem watch_eq_advance (features : List String) (frames : List Frame)
    (places : List (List Char)) (cs : List Char) :
    (watch features frames places cs).2 = advance features frames cs := by
  fun_induction advance features frames cs generalizing places with
  | case1 frames cs hskip stop hend => rw [watch_of_end hskip, hend]
  | case2 frames cs hskip hend => rw [watch_of_end hskip, hend]
  | case3 frames cs c tail hskip stop hscan => rw [watch_of_scan_error hskip hscan]
  | case4 frames cs c tail hskip x rest hscan stop hpush =>
    rw [watch_of_scan hskip hscan, hpush]
  | case5 frames cs c tail hskip x rest hscan d hpush =>
    rw [watch_of_scan hskip hscan, hpush]
  | case6 frames cs c tail hskip x rest hscan frames' hpush ih =>
    rw [watch_of_scan hskip hscan, hpush]
    exact ih _

/-- All forms of a text, as `formsFrom` reads them, and what happens meanwhile. -/
def watchForms (features : List String) (cs : List Char) :
    List Event × List Datum × Option Stop :=
  match _h : watch features [] [] cs with
  | (events, .error stop) => (events, [], some stop)
  | (events, .ok none) => (events, [], none)
  | (events, .ok (some (d, rest))) =>
    let (more, ds, stop) := watchForms features rest
    (events ++ more, d :: ds, stop)
termination_by cs.length
decreasing_by
  have hadvance := watch_eq_advance features [] [] cs
  rw [_h] at hadvance
  exact advance_length hadvance.symm

example :
    let left (n : Nat) := "'(a #_b) ]".toList.drop n
    (watchForms [] "'(a #_b) ]".toList).1 =
      [.starts (left 0) [],
        .starts (left 1) [left 0],
        .starts (left 2) [left 1, left 0], .ends (left 2) (left 3),
        .starts (left 4) [left 1, left 0],
        .starts (left 6) [left 4, left 1, left 0], .ends (left 6) (left 7),
        .ends (left 4) (left 7),
        .ends (left 1) (left 8),
        .ends (left 0) (left 8),
        .starts (left 9) []] := by
  decide +kernel

/-! ## Where forms start and end -/

/-- What is left is the text farther on than at the place, and not past its end. -/
def IsPast (place rest : List Char) : Prop := rest <:+ place ∧ rest.length < place.length

/-- What is past a place stays past it further on. -/
theorem IsPast.trans_suffix (h : IsPast place cs) (hrest : rest <:+ cs) : IsPast place rest :=
  ⟨hrest.trans h.1, Nat.lt_of_le_of_lt hrest.length_le h.2⟩

/-- A form starts before the end of the text, and past the places at which the forms around it have
started; it ends past the place at which it has started. -/
def Event.Progresses (text : List Char) : Event → Prop
  | .starts place outer => place ≠ [] ∧ place <:+ text ∧ ∀ p ∈ outer, IsPast p place
  | .ends place rest => place <:+ text ∧ IsPast place rest

/-- The forms that have started and not ended have started in the text, before what is left. -/
def AllBefore (text : List Char) (places : List (List Char)) (cs : List Char) : Prop :=
  ∀ p ∈ places, p <:+ text ∧ IsPast p cs

/-- Places that were passed stay so. -/
theorem AllBefore.trans_suffix (h : AllBefore text places cs) (hrest : rest <:+ cs) :
    AllBefore text places rest :=
  fun p hp => ⟨(h p hp).1, (h p hp).2.trans_suffix hrest⟩

/-- A lexeme leads past the place that it started at. -/
theorem isPast_of_scan {c : Char} {tail : List Char} (h : scan c tail = .ok (x, rest)) :
    IsPast (c :: tail) rest := by
  have hwithin := scan_within c tail
  rw [h] at hwithin
  exact ⟨hwithin, Nat.lt_succ_of_le (scan_length h)⟩

/-- What begins with a lexeme is behind once the lexeme is read. -/
theorem allBefore_begun (hplace : place <:+ text) (hrest : IsPast place rest)
    (hplaces : AllBefore text places place) :
    AllBefore text (begun frames places place x) rest := by
  have hold : AllBefore text places rest := hplaces.trans_suffix hrest.1
  unfold begun
  split_ifs
  · exact List.forall_mem_cons.2 ⟨⟨hplace, hrest⟩, hold⟩
  · exact hold

/-- A form that starts at a lexeme starts past those around it, and one that ends there ends past
where it started. -/
theorem progresses_of_happenings (hne : place ≠ []) (hplace : place <:+ text)
    (hrest : IsPast place rest) (hplaces : AllBefore text places place) :
    ∀ e ∈ happenings features frames places place rest x, e.Progresses text := by
  intro e he
  rcases List.mem_append.1 he with hstart | hend
  · split_ifs at hstart
    · obtain rfl := List.mem_singleton.1 hstart
      exact ⟨hne, hplace, fun p hp => (hplaces p hp).2⟩
    · cases hstart
  · obtain ⟨p, hp, rfl⟩ := List.mem_map.1 hend
    exact allBefore_begun hplace hrest hplaces p (List.mem_of_mem_take hp)

/-- A step makes headway, and the forms that have not ended with it have started before what it
leaves. -/
theorem progresses_of_step {c : Char} {tail : List Char} (hskip : skipBlank cs = c :: tail)
    (hscan : scan c tail = .ok (x, rest)) (hcs : cs <:+ text)
    (hplaces : AllBefore text places cs) :
    (∀ e ∈ happenings features frames places (c :: tail) rest x, e.Progresses text) ∧
      AllBefore text (remaining features frames places (c :: tail) rest x) rest := by
  have hplace : c :: tail <:+ cs := hskip ▸ skipBlank_suffix cs
  have hrest : IsPast (c :: tail) rest := isPast_of_scan hscan
  have hbefore : AllBefore text places (c :: tail) := hplaces.trans_suffix hplace
  constructor
  · exact progresses_of_happenings (List.cons_ne_nil c tail) (hplace.trans hcs) hrest hbefore
  · exact fun p hp =>
      allBefore_begun (hplace.trans hcs) hrest hbefore p (List.mem_of_mem_drop hp)

/-- What happens in a reading makes headway if what has happened before it did. -/
theorem progresses_of_watch (hcs : cs <:+ text) (hplaces : AllBefore text places cs) :
    ∀ e ∈ (watch features frames places cs).1, e.Progresses text := by
  fun_induction watch features frames places cs with
  | case1 => nofun
  | case2 frames places cs c tail hskip stop hscan =>
    have hplace : c :: tail <:+ cs := hskip ▸ skipBlank_suffix cs
    refine List.forall_mem_singleton.2 ⟨List.cons_ne_nil c tail, hplace.trans hcs, fun p hp => ?_⟩
    exact ((hplaces p hp).2).trans_suffix hplace
  | case3 frames places cs c tail hskip x rest hscan events stop hpush =>
    exact (progresses_of_step hskip hscan hcs hplaces).1
  | case4 frames places cs c tail hskip x rest hscan events d hpush =>
    exact (progresses_of_step hskip hscan hcs hplaces).1
  | case5 frames places cs c tail hskip x rest hscan events frames' hpush more ih =>
    obtain ⟨hevents, hbefore⟩ := progresses_of_step hskip hscan hcs hplaces
    have hrest : rest <:+ text := (suffix_of_scan hskip hscan).trans hcs
    exact List.forall_mem_append.2 ⟨hevents, ih hrest hbefore⟩

/-! ## How many forms start and end -/

/-- At a lexeme one form starts, or none. -/
theorem countP_isStart_happenings :
    (happenings features frames places place rest x).countP Event.isStart =
      if startsForm frames x then 1 else 0 := by
  have hends (l : List (List Char)) : (l.map (.ends · rest)).countP Event.isStart = 0 := by
    rw [List.countP_map]
    exact List.countP_eq_zero.2 fun _ _ => Bool.false_ne_true
  rw [happenings, List.countP_append, hends]
  split_ifs <;> rfl

/-- As many forms end there as are completed by it, which is never more than have begun. -/
theorem countP_isEnd_happenings :
    (happenings features frames places place rest x).countP Event.isEnd =
      min (endsWith features rest frames x) (begun frames places place x).length := by
  have hends (l : List (List Char)) : (l.map (.ends · rest)).countP Event.isEnd = l.length := by
    rw [List.countP_map]
    exact List.countP_eq_length.2 fun _ _ => rfl
  rw [happenings, List.countP_append, hends, List.length_take]
  split_ifs <;> exact Nat.zero_add _

/-- What a reading leaves of the text; nothing if it has come to the end or stopped. -/
def leftOver : Except Stop (Option (Datum × List Char)) → List Char
  | .ok (some (_, rest)) => rest
  | _ => []

/-- A step starts at most one form, and leaves less than there was. -/
theorem countP_isStart_add_length_le_of_scan {c : Char} {tail : List Char}
    (hskip : skipBlank cs = c :: tail) (hscan : scan c tail = .ok (x, rest)) :
    (happenings features frames places (c :: tail) rest x).countP Event.isStart + rest.length ≤
      cs.length := by
  have hplace := length_skipBlank_le cs
  have hrest := (isPast_of_scan hscan).2
  rw [hskip] at hplace
  rw [countP_isStart_happenings]
  split_ifs <;> omega

/-- Each form that starts takes a character of its own, so the forms that start and the characters
that are left are no more than the characters that there were. -/
theorem countP_isStart_add_length_le (features : List String) (frames : List Frame)
    (places : List (List Char)) (cs : List Char) :
    (watch features frames places cs).1.countP Event.isStart +
      (leftOver (watch features frames places cs).2).length ≤ cs.length := by
  fun_induction watch features frames places cs with
  | case1 frames places cs hskip => split <;> exact Nat.zero_le _
  | case2 frames places cs c tail hskip stop hscan =>
    have hplace := length_skipBlank_le cs
    rw [hskip, List.length_cons] at hplace
    exact Nat.le_trans (Nat.le_add_left 1 tail.length) hplace
  | case3 frames places cs c tail hskip x rest hscan events stop hpush =>
    exact Nat.le_trans (Nat.le_add_right _ _) (countP_isStart_add_length_le_of_scan hskip hscan)
  | case4 frames places cs c tail hskip x rest hscan events d hpush =>
    exact countP_isStart_add_length_le_of_scan hskip hscan
  | case5 frames places cs c tail hskip x rest hscan events frames' hpush more ih =>
    have hevents : events.countP Event.isStart + rest.length ≤ cs.length :=
      countP_isStart_add_length_le_of_scan hskip hscan
    have hmore : more.1.countP Event.isStart + (leftOver more.2).length ≤ rest.length := ih
    change (events ++ more.1).countP Event.isStart + (leftOver more.2).length ≤ cs.length
    rw [List.countP_append]
    omega

/-- How many frames are pending. -/
def Progress.depth : Progress → Nat
  | .complete _ => 0
  | .pending frames => frames.length

/-- The frames that an item does not complete stay. How many it completes is told by the frames:
each mark, tag or metadata that waits for one form is completed by it, up to the first bracket. -/
theorem depth_of_deliver {p : Progress} (h : deliver rest item frames = .ok p) :
    p.depth + completions rest item frames = frames.length := by
  fun_induction deliver rest item frames with
  | case1 frames =>
    cases h
    rw [completions]
    rfl
  | case2 => cases h; rfl
  | case3 => cases h
  | case4 => cases h; rfl
  | case5 => cases h; rfl
  | case6 item head frames hitem ih =>
    rw [completions, List.length_cons, ← ih h, Nat.add_assoc]
    exact hitem
  | case7 item frames hitem =>
    cases h
    rw [completions]
    · rfl
    · exact hitem
  | case8 item metadata frames hitem result hattach ih =>
    rw [completions, hattach, List.length_cons, ← ih h, Nat.add_assoc]
    exact hitem
  | case9 => cases h
  | case10 item frames hitem =>
    cases h
    rw [completions]
    · rfl
    · exact hitem
  | case11 item frames hitem n attached hdatum =>
    cases h
    rw [completions]
    · rfl
    · exact hitem
  | case12 => cases h
  | case13 item n attached frames hitem ih =>
    rw [completions, List.length_cons, ← ih h, Nat.add_assoc]
    exact hitem

/-- A delimiter starts no form, and takes as many frames away as forms end. -/
theorem depth_of_close {delimiter : Char} {p : Progress}
    (h : close features delimiter rest frames = .ok p) :
    startsForm frames (.closing delimiter) = false ∧
      p.depth + endsAtClose features delimiter rest frames = frames.length := by
  unfold close at h
  split at h
  · next b opened items frames =>
    split_ifs at h with hcloser
    split at h
    · next item hitem =>
      refine ⟨by rw [startsForm, hcloser, bne_self_eq_false], ?_⟩
      rw [endsAtClose, if_pos hcloser, hitem, List.length_cons, ← depth_of_deliver h]
      rfl
    · cases h
  · cases h

theorem begun_of_ne (h : ∀ delimiter, x ≠ .closing delimiter) :
    begun frames places place x = place :: places := by
  have hstarts : startsForm frames x = true := by
    unfold startsForm
    split
    · exact absurd rfl (h _)
    · rfl
  rw [begun, if_pos hstarts]

/-- There is one place more if a form begins. -/
theorem length_begun :
    (begun frames places place x).length =
      (if startsForm frames x then 1 else 0) + places.length := by
  rw [begun]
  split_ifs
  · exact Nat.add_comm _ _
  · exact (Nat.zero_add _).symm

/-- A step leaves a frame for each form that has started and not ended. -/
theorem depth_of_push {p : Progress} (h : push features rest frames x = .ok p)
    (hplaces : places.length = frames.length) :
    p.depth + endsWith features rest frames x = (begun frames places place x).length := by
  cases x with
  | closing delimiter =>
    obtain ⟨hstarts, hdepth⟩ := depth_of_close h
    rw [begun, if_neg (Bool.eq_false_iff.1 hstarts), hplaces]
    exact hdepth
  | atom d =>
    have hdepth := depth_of_deliver h
    rw [begun_of_ne (fun _ h => by cases h), List.length_cons, hplaces, endsWith, ← hdepth,
      Nat.add_assoc]
  | _ =>
    cases h
    rw [begun_of_ne (fun _ h => by cases h), List.length_cons, hplaces]
    rfl

/-- After a step there is a place for each frame that is left. -/
theorem length_remaining {p : Progress} (h : push features rest frames x = .ok p)
    (hplaces : places.length = frames.length) :
    (remaining features frames places place rest x).length = p.depth := by
  rw [remaining, List.length_drop, ← depth_of_push h hplaces, Nat.add_sub_cancel]

/-- What starts ends later, or is a frame that is still open: in every step the two sides stay in
balance. -/
theorem countP_isEnd_add_depth {p : Progress} (h : push features rest frames x = .ok p)
    (hplaces : places.length = frames.length) :
    (happenings features frames places place rest x).countP Event.isEnd + p.depth =
      (happenings features frames places place rest x).countP Event.isStart + places.length := by
  have hdepth : p.depth + endsWith features rest frames x =
      (begun frames places place x).length := depth_of_push h hplaces
  have hbegun : (begun frames places place x).length =
      (if startsForm frames x then 1 else 0) + places.length := length_begun
  rw [countP_isStart_happenings, countP_isEnd_happenings, ← hbegun, ← hdepth]
  omega

/-- A reading that does not stop ends all forms, those that have started before it too. -/
theorem countP_isEnd_watch (h : ∀ stop, (watch features frames places cs).2 ≠ .error stop)
    (hplaces : places.length = frames.length) :
    (watch features frames places cs).1.countP Event.isEnd =
      (watch features frames places cs).1.countP Event.isStart + places.length := by
  fun_induction watch features frames places cs with
  | case1 frames places cs hskip =>
    cases frames with
    | nil => exact hplaces.symm.trans (Nat.zero_add _).symm
    | cons f frames => cases f <;> exact absurd rfl (h _)
  | case2 frames places cs c tail hskip stop hscan => exact absurd rfl (h stop)
  | case3 frames places cs c tail hskip x rest hscan events stop hpush => exact absurd rfl (h stop)
  | case4 frames places cs c tail hskip x rest hscan events d hpush =>
    exact countP_isEnd_add_depth hpush hplaces
  | case5 frames places cs c tail hskip x rest hscan events frames' hpush more ih =>
    have hevents : events.countP Event.isEnd + frames'.length =
        events.countP Event.isStart + places.length := countP_isEnd_add_depth hpush hplaces
    have hremaining : (remaining features frames places (c :: tail) rest x).length =
        frames'.length := length_remaining hpush hplaces
    have hmore : more.1.countP Event.isEnd = more.1.countP Event.isStart + frames'.length :=
      (ih h hremaining).trans (congrArg (_ + ·) hremaining)
    change (events ++ more.1).countP Event.isEnd =
      (events ++ more.1).countP Event.isStart + places.length
    rw [List.countP_append, List.countP_append]
    omega

/-! ## All forms of a text -/

/-- Watching the reading does not change what is read. -/
theorem watchForms_eq_formsFrom (features : List String) (cs : List Char) :
    (watchForms features cs).2 = formsFrom features cs := by
  have hadvance := watch_eq_advance features [] [] cs
  fun_induction watchForms features cs with
  | case1 cs events stop hstop =>
    rw [hstop] at hadvance
    rw [formsFrom_of_error hadvance.symm]
  | case2 cs events hend =>
    rw [hend] at hadvance
    rw [formsFrom_of_none hadvance.symm]
  | case3 cs events d rest hd more ds stop hmore ih =>
    rw [hd] at hadvance
    rw [formsFrom_of_some hadvance.symm, ← ih (watch_eq_advance features [] [] rest), hmore]

/-- All that happens goes forward. -/
theorem progresses_of_watchForms (hcs : cs <:+ text) :
    ∀ e ∈ (watchForms features cs).1, e.Progresses text := by
  have hevents : ∀ e ∈ (watch features [] [] cs).1, e.Progresses text :=
    progresses_of_watch hcs (List.forall_mem_nil _)
  fun_induction watchForms features cs with
  | case1 cs events stop hstop => rwa [hstop] at hevents
  | case2 cs events hend => rwa [hend] at hevents
  | case3 cs events d rest hd more ds stop hmore ih =>
    have hadvance := watch_eq_advance features [] [] cs
    rw [hd] at hevents hadvance
    have hrest : rest <:+ text := (advance_suffix hadvance.symm).trans hcs
    rw [hmore] at ih
    exact List.forall_mem_append.2
      ⟨hevents, ih hrest (progresses_of_watch hrest (List.forall_mem_nil _))⟩

/-- No more forms start than there are characters. -/
theorem countP_isStart_le (features : List String) (cs : List Char) :
    (watchForms features cs).1.countP Event.isStart ≤ cs.length := by
  have hevents := countP_isStart_add_length_le features [] [] cs
  fun_induction watchForms features cs with
  | case1 cs events stop hstop =>
    rw [hstop] at hevents
    exact hevents
  | case2 cs events hend =>
    rw [hend] at hevents
    exact hevents
  | case3 cs events d rest hd more ds stop hmore ih =>
    rw [hd] at hevents
    rw [hmore] at ih
    have hrest := ih (countP_isStart_add_length_le features [] [] rest)
    change (events ++ more).countP Event.isStart ≤ cs.length
    rw [List.countP_append]
    exact Nat.le_trans (Nat.add_le_add_left hrest _) hevents

/-- If nothing goes wrong then every form that starts ends. -/
theorem countP_isEnd_of_watchForms (h : (watchForms features cs).2.2 = none) :
    (watchForms features cs).1.countP Event.isEnd =
      (watchForms features cs).1.countP Event.isStart := by
  have hall : (∀ stop, (watch features [] [] cs).2 ≠ .error stop) →
      (watch features [] [] cs).1.countP Event.isEnd =
        (watch features [] [] cs).1.countP Event.isStart :=
    fun hstop => countP_isEnd_watch hstop rfl
  fun_induction watchForms features cs with
  | case1 cs events stop hstop => cases h
  | case2 cs events hend =>
    have hevents := hall (by rw [hend]; nofun)
    rwa [hend] at hevents
  | case3 cs events d rest hd more ds stop hmore ih =>
    have hevents := hall (by rw [hd]; nofun)
    rw [hd] at hevents
    rw [hmore] at ih
    change (events ++ more).countP Event.isEnd = (events ++ more).countP Event.isStart
    rw [List.countP_append, List.countP_append, ih h fun hstop => countP_isEnd_watch hstop rfl]
    exact congrArg (· + _) hevents

/-- There are no more forms than characters, since every form that starts takes one at least. -/
theorem length_formsFrom_le (features : List String) (cs : List Char) :
    (formsFrom features cs).1.length ≤ cs.length := by
  fun_induction formsFrom features cs with
  | case1 => exact Nat.zero_le _
  | case2 => exact Nat.zero_le _
  | case3 cs d rest hd ds stop hmore ih =>
    rw [hmore] at ih
    exact Nat.le_trans (Nat.succ_le_succ ih) (advance_length hd)

/-- Reading makes headway. What happens while a text is read, well formed or not, is that forms
start before its end, each past the places at which the forms around it have started, and that they
end past the places at which they have started themselves; all of them end unless reading stops.
There are at most as many of them as the text has characters, and at most as many forms are read.
No reading is stopped by a character that no lexeme starts with. -/
theorem progresses_of_forms (text : String) (features : List String) :
    (watchForms features text.toList).2 = formsFrom features text.toList ∧
      (∀ e ∈ (watchForms features text.toList).1, e.Progresses text.toList) ∧
      ((forms text features).2 = none →
        (watchForms features text.toList).1.countP Event.isEnd =
          (watchForms features text.toList).1.countP Event.isStart) ∧
      (watchForms features text.toList).1.countP Event.isStart ≤ text.length ∧
      (forms text features).1.length ≤ text.length ∧
      (∀ rest line, (forms text features).2 ≠ some (.malformed (.strayCharacter rest) line)) ∧
      ∀ rest line, first text features ≠ .error (.malformed (.strayCharacter rest) line) := by
  have hwatch := watchForms_eq_formsFrom features text.toList
  refine ⟨hwatch, progresses_of_watchForms (List.suffix_refl _), fun h => ?_, ?_, ?_, ?_, ?_⟩
  · refine countP_isEnd_of_watchForms ?_
    rw [hwatch]
    exact Option.map_eq_none_iff.1 h
  · exact countP_isStart_le features text.toList
  · exact length_formsFrom_le features text.toList
  · intro rest line h
    obtain ⟨stop, hstop, hfault⟩ := Option.map_eq_some_iff.1 h
    exact recognizes_formsFrom features text.toList stop hstop
      (isStray_of_fault (formsFrom_within (Prod.ext rfl hstop)) hfault)
  · intro rest line h
    unfold first at h
    split at h
    · cases h
    · cases h
    · next stop hstop =>
      have hwithin := advance_within (List.suffix_refl text.toList) (List.forall_mem_nil _) hstop
      exact recognizes_advance features [] text.toList stop hstop
        (isStray_of_fault hwithin (Except.error.inj h))

end BuildFiles.Reader
