import BuildFiles.Proofs.Computation
import BuildFiles.Proofs.Reader.Stack

/-!
# What holds of all data that is read

A property of data `IsKept` by reading if literals have it, and if whatever a bracket, a mark or a
tag makes of data that have it has it too. Then each step keeps it (`IsKept.all_of_push`), and all
forms of a text have it (`IsKept.of_formsFrom`). There is one exception: a mark and a tag take in
the items of a splicing conditional as if they were a form. A reading that comes to this `strays`,
and nothing is known of its forms unless any such items have the property.
-/

namespace BuildFiles.Reader

variable {features : List String} {cs rest : List Char} {frames : List Frame} {d : Datum}
  {ds : List Datum} {item : Item} {progress : Progress} {P : Datum → Prop}

/-- Reading keeps the property: literals have it, and so does what is made of data that have it. -/
structure IsKept (P : Datum → Prop) : Prop where
  atom {c : Char} {cs rest : List Char} {d : Datum} :
    scan c cs = .ok (.atom d, rest) → P d
  sym {head : String} : head ∈ "fn*" :: wrappingHeads → P (.sym head)
  list {ds : List Datum} : (∀ d ∈ ds, P d) → P (.list ds)
  vector {ds : List Datum} : (∀ d ∈ ds, P d) → P (.vector ds)
  items {d : Datum} {ds : List Datum} : d.sequence? = some ds → P d → ∀ d ∈ ds, P d
  set {ds : List Datum} {d : Datum} : (∀ d ∈ ds, P d) → setOf ds = .ok d → P d
  map {ds : List Datum} {rest : List Char} {es : Entries Datum Datum} :
    (∀ d ∈ ds, P d) → mapOf ds rest = .ok es → P (.map es)
  qualified {es : Entries Datum Datum} (space : String) : P (.map es) →
    P (.map (Entries.ofList (es.map fun (k, v) => (qualifiedKey space k, v))))
  attached {n : Name} {before es : List (Datum × Datum)} {metadata : Datum} :
    P (.symbol n before) → P metadata → metadataEntries? metadata = some es →
      P (.symbol n (Entries.insertAll before es))
  tagged {n : Name} {attached : List (Datum × Datum)} {form : Datum} :
    P (.symbol n attached) → P form → P (.tagged n attached form)

/-! ## Items and frames -/

/-- What the item gives to the form around it has the property. -/
def Item.All (P : Datum → Prop) : Item → Prop
  | .form d => P d
  | .splice ds => ∀ d ∈ ds, P d
  | .nothing => True

/-- So does what the frame has so far. -/
def Frame.All (P : Datum → Prop) : Frame → Prop
  | .collecting _ _ items => ∀ d ∈ items, P d
  | .wrapping head => head ∈ wrappingHeads
  | .target held => (metadataEntries? held).isSome = true → P held
  | .tagged n attached => P (.symbol n attached)
  | _ => True

/-- So does what a lexeme has led to. -/
def Progress.All (P : Datum → Prop) : Progress → Prop
  | .complete d => P d
  | .pending frames => ∀ f ∈ frames, f.All P

/-! ## Items that no collection takes in -/

/-- Items that are handed to the frames become a part of the form that a mark or a tag makes. -/
def isExposed : List Frame → Bool
  | .wrapping _ :: _ => true
  | .tagged _ _ :: _ => true
  | .target held :: frames => (metadataEntries? held).isSome && isExposed frames
  | _ => false

/-- What a bracket comes to are items that a collection should take in one by one. -/
def isSplice : Except Stop Item → Bool
  | .ok (.splice _) => true
  | _ => false

/-- The lexeme closes a splicing conditional that stands after a mark or a tag, with nothing but
metadata between them. -/
def straysAt (features : List String) (rest : List Char) : List Frame → Lexeme → Bool
  | .collecting b _ items :: outer, .closing delimiter =>
    b.closer == delimiter && isExposed outer && isSplice (closed features b items.reverse rest)
  | _, _ => false

/-- The reading of a text to its end comes to such a lexeme. -/
def strays (features : List String) (frames : List Frame) (cs : List Char) : Bool :=
  match _hskip : skipBlank cs with
  | [] => false
  | c :: tail =>
    match _hscan : scan c tail with
    | .error _ => false
    | .ok (x, rest) =>
      straysAt features rest frames x || match push features rest frames x with
        | .error _ => false
        | .ok (.complete _) => strays features [] rest
        | .ok (.pending frames') => strays features frames' rest
termination_by cs.length
decreasing_by
  all_goals
    have h₁ := length_skipBlank_le cs
    have h₂ := scan_length _hscan
    rw [_hskip, List.length_cons] at h₁
    omega

/-- Whether a reading strays is told at the lexeme that comes next, or further on from the frames
that it leaves. -/
theorem strays_of_scan {c : Char} {tail : List Char} {x : Lexeme}
    (hskip : skipBlank cs = c :: tail) (hscan : scan c tail = .ok (x, rest)) :
    strays features frames cs =
      (straysAt features rest frames x || match push features rest frames x with
        | .error _ => false
        | .ok (.complete _) => strays features [] rest
        | .ok (.pending frames') => strays features frames' rest) := by
  rw [strays]
  split
  · next hnil =>
    rw [hskip] at hnil
    cases hnil
  · next c' tail' hskip' =>
    obtain ⟨rfl, rfl⟩ := List.cons.inj (hskip.symm.trans hskip')
    split
    · next hstop =>
      rw [hscan] at hstop
      cases hstop
    · next hok =>
      rw [hscan] at hok
      cases hok
      rfl

theorem strays_of_straysAt {c : Char} {tail : List Char} {x : Lexeme}
    (hskip : skipBlank cs = c :: tail) (hscan : scan c tail = .ok (x, rest))
    (h : straysAt features rest frames x = true) : strays features frames cs = true := by
  rw [strays_of_scan hskip hscan, h, Bool.true_or]

theorem strays_of_pending {c : Char} {tail : List Char} {x : Lexeme} {frames' : List Frame}
    (hskip : skipBlank cs = c :: tail) (hscan : scan c tail = .ok (x, rest))
    (hpush : push features rest frames x = .ok (.pending frames'))
    (h : strays features frames' rest = true) : strays features frames cs = true := by
  rw [strays_of_scan hskip hscan, hpush]
  exact Bool.or_eq_true_iff.2 (.inr h)

/-- A text strays if it does after its first form. -/
theorem strays_of_advance (h : advance features frames cs = .ok (some (d, rest)))
    (hrest : strays features [] rest = true) : strays features frames cs = true := by
  fun_induction advance features frames cs with
  | case1 => cases h
  | case2 => cases h
  | case3 => cases h
  | case4 => cases h
  | case5 frames cs c tail hskip x rest' hscan d' hpush =>
    cases h
    rw [strays_of_scan hskip hscan, hpush]
    exact Bool.or_eq_true_iff.2 (.inr hrest)
  | case6 frames cs c tail hskip x rest' hscan frames' hpush ih =>
    exact strays_of_pending hskip hscan hpush (ih h)

/-! ## Steps -/

theorem mem_of_mem_pairs {k v : Datum} (h : (k, v) ∈ pairs ds) : k ∈ ds ∧ v ∈ ds := by
  fun_induction pairs ds with
  | case1 a b rest ih =>
    rcases List.mem_cons.1 h with hhead | hrest
    · obtain ⟨rfl, rfl⟩ := Prod.mk.inj hhead
      simp
    · simp [ih hrest]
  | case2 => cases h

namespace IsKept

theorem holds_datum (hitem : item.All P) (hne : item ≠ .nothing)
    (hloose : ∀ ds, item = .splice ds → P (.splice ds)) : P item.datum := by
  cases item with
  | form d => exact hitem
  | splice ds => exact hloose ds rfl
  | nothing => exact absurd rfl hne

theorem all_of_attach (hP : IsKept P) {metadata : Datum} {target : Item}
    (hmetadata : (metadataEntries? metadata).isSome = true → P metadata) (htarget : target.All P)
    (h : attach metadata target rest = .ok item) : item.All P := by
  unfold attach at h
  split at h
  · cases h
  · next es hes =>
    split at h <;> cases h
    · exact hP.attached htarget (hmetadata (by rw [hes]; rfl)) hes
    · exact htarget

/-- Metadata leaves the items of a splicing conditional as they are. -/
theorem splice_of_attach {metadata : Datum} {target : Item}
    (h : attach metadata target rest = .ok (.splice ds)) :
    target = .splice ds ∧ (metadataEntries? metadata).isSome = true := by
  unfold attach at h
  split at h
  · cases h
  · next es hes =>
    split at h <;> cases h
    exact ⟨rfl, by rw [hes]; rfl⟩

/-- Handing an item on keeps the property, if it holds of the item. A splice that is loose, in that
no bracket is around it, has to have the property itself. -/
theorem all_of_deliver (hP : IsKept P) (hframes : ∀ f ∈ frames, f.All P) (hitem : item.All P)
    (hloose : ∀ ds, item = .splice ds → isExposed frames = true → P (.splice ds))
    (h : deliver rest item frames = .ok progress) : progress.All P := by
  -- by the frames that the item is handed through; metadata hands a splice on, and a mark or a tag
  -- makes a form of it
  fun_induction deliver rest item frames with
  | case1 =>
    cases h
    exact hframes
  | case2 =>
    cases h
    exact hitem
  | case3 => cases h
  | case4 d b opened items frames =>
    cases h
    obtain ⟨hitems, hframes⟩ := List.forall_mem_cons.1 hframes
    exact List.forall_mem_cons.2 ⟨List.forall_mem_cons.2 ⟨hitem, hitems⟩, hframes⟩
  | case5 ds b opened items frames =>
    cases h
    obtain ⟨hitems, hframes⟩ := List.forall_mem_cons.1 hframes
    refine List.forall_mem_cons.2 ⟨List.forall_mem_append.2 ⟨fun d hd => ?_, hitems⟩, hframes⟩
    exact hitem d (List.mem_reverse.1 hd)
  | case6 item head frames hne ih =>
    obtain ⟨hhead, hframes⟩ := List.forall_mem_cons.1 hframes
    refine ih hframes (hP.list (List.forall_mem_cons.2 ⟨?_, ?_⟩)) (fun _ h => by cases h) h
    · exact hP.sym (List.mem_cons_of_mem _ hhead)
    · exact List.forall_mem_singleton.2
        (holds_datum hitem hne fun ds hds => hloose ds hds rfl)
  | case7 item frames hne =>
    cases h
    refine List.forall_mem_cons.2 ⟨fun hsome => ?_, (List.forall_mem_cons.1 hframes).2⟩
    cases item with
    | form d => exact hitem
    | splice ds => cases hsome
    | nothing => exact absurd rfl hne
  | case8 item metadata frames hne result hattach ih =>
    obtain ⟨hmetadata, hframes⟩ := List.forall_mem_cons.1 hframes
    refine ih hframes (hP.all_of_attach hmetadata hitem hattach) ?_ h
    rintro ds rfl hexposed
    obtain ⟨hsplice, hsome⟩ := splice_of_attach hattach
    exact hloose ds hsplice (Bool.and_eq_true_iff.2 ⟨hsome, hexposed⟩)
  | case9 => cases h
  | case10 =>
    cases h
    exact (List.forall_mem_cons.1 hframes).2
  | case11 item frames hne n attached hdatum =>
    cases h
    refine List.forall_mem_cons.2 ⟨?_, (List.forall_mem_cons.1 hframes).2⟩
    cases item with
    | form d =>
      obtain rfl : d = .symbol n attached := hdatum
      exact hitem
    | splice ds => cases hdatum
    | nothing => exact absurd rfl hne
  | case12 => cases h
  | case13 item n attached frames hne ih =>
    obtain ⟨hsymbol, hframes⟩ := List.forall_mem_cons.1 hframes
    refine ih hframes (hP.tagged hsymbol ?_) (fun _ h => by cases h) h
    exact holds_datum hitem hne fun ds hds => hloose ds hds rfl

/-- The form of a branch that is selected has the property if those of all branches do. -/
theorem all_of_select (hP : IsKept P) {splicing : Bool} {branches : List (Datum × Datum)}
    (hbranches : ∀ b ∈ branches, P b.2)
    (h : select features splicing rest branches = .ok item) : item.All P := by
  induction branches with
  | nil =>
    cases h
    trivial
  | cons branch branches ih =>
    obtain ⟨hbranch, hbranches⟩ := List.forall_mem_cons.1 hbranches
    unfold select at h
    split at h
    · cases h
    · split_ifs at h
      · split at h
        · next items hitems =>
          cases h
          exact hP.items hitems hbranch
        · cases h
      · cases h
        exact hbranch
      · exact ih hbranches h

theorem all_of_closed (hP : IsKept P) {b : Bracket} (hds : ∀ d ∈ ds, P d)
    (h : closed features b ds rest = .ok item) : item.All P := by
  unfold closed at h
  split at h
  · cases h
    exact hP.list hds
  · cases h
    exact hP.vector hds
  · cases h
    exact hP.list (List.forall_mem_cons.2 ⟨hP.sym List.mem_cons_self,
      List.forall_mem_singleton.2 (hP.list hds)⟩)
  · obtain ⟨_, hset, rfl⟩ := Except.map_eq_ok h
    exact hP.set hds hset
  · obtain ⟨es, hmap, rfl⟩ := Except.map_eq_ok h
    exact hP.map hds hmap
  · obtain ⟨es, hmap, rfl⟩ := Except.map_eq_ok h
    exact hP.qualified _ (hP.map hds hmap)
  · split_ifs at h
    exact hP.all_of_select (fun b hb => hds b.2 (mem_of_mem_pairs hb).2) h

/-- A step keeps the property unless the reading strays by it; the cases are those of the lexeme,
and brackets and literals are where the property has to be made anew. -/
theorem all_of_push (hP : IsKept P) {c : Char} {tail : List Char} {x : Lexeme}
    (hscan : scan c tail = .ok (x, rest))
    (hloose : straysAt features rest frames x = true → ∀ ds, P (.splice ds))
    (hframes : ∀ f ∈ frames, f.All P)
    (h : push features rest frames x = .ok progress) : progress.All P := by
  cases x with
  | atom d =>
    have hitem : (Item.form d).All P := hP.atom hscan
    exact hP.all_of_deliver hframes hitem (fun _ h => by cases h) h
  | closing delimiter =>
    change close features delimiter rest frames = _ at h
    unfold close at h
    split at h
    · next b opened items outer =>
      obtain ⟨hitems, houter⟩ := List.forall_mem_cons.1 hframes
      split_ifs at h with hcloser
      subst hcloser
      split at h
      · next item hclosed =>
        refine hP.all_of_deliver houter (hP.all_of_closed (fun d hd => ?_) hclosed) ?_ h
        · exact hitems d (List.mem_reverse.1 hd)
        · -- the bracket is a splicing conditional, and the reading strays with it
          rintro ds rfl hexposed
          refine hloose ?_ ds
          rw [straysAt, beq_self_eq_true, hexposed, hclosed]
          rfl
      · cases h
    · cases h
  | opening b =>
    cases h
    have hframe : (Frame.collecting b rest []).All P := fun d hd => nomatch hd
    exact List.forall_mem_cons.2 ⟨hframe, hframes⟩
  | wrapping head =>
    cases h
    have hhead : head ∈ wrappingHeads := scan_isFrom hscan
    exact List.forall_mem_cons.2 ⟨hhead, hframes⟩
  | gap =>
    cases h
    exact hframes
  | _ =>
    cases h
    exact List.forall_mem_cons.2 ⟨trivial, hframes⟩

/-! ## Whole readings -/

theorem of_advance (hP : IsKept P)
    (hloose : strays features frames cs = true → ∀ ds, P (.splice ds))
    (hframes : ∀ f ∈ frames, f.All P) (h : advance features frames cs = .ok (some (d, rest))) :
    P d := by
  fun_induction advance features frames cs with
  | case1 => cases h
  | case2 => cases h
  | case3 => cases h
  | case4 => cases h
  | case5 frames cs c tail hskip x rest' hscan d' hpush =>
    cases h
    exact hP.all_of_push hscan (fun h => hloose (strays_of_straysAt hskip hscan h)) hframes hpush
  | case6 frames cs c tail hskip x rest' hscan frames' hpush ih =>
    refine ih (fun h => hloose (strays_of_pending hskip hscan hpush h)) ?_ h
    exact hP.all_of_push hscan (fun h => hloose (strays_of_straysAt hskip hscan h)) hframes hpush

/-- The forms of a text that does not stray have the property. -/
theorem of_formsFrom (hP : IsKept P) (h : strays features [] cs = false) :
    ∀ d ∈ (formsFrom features cs).1, P d := by
  fun_induction formsFrom features cs with
  | case1 => nofun
  | case2 => nofun
  | case3 cs d rest hd ds stop hrest ih =>
    rw [hrest] at ih
    have hrest : strays features [] rest = false :=
      Bool.eq_false_iff.2 fun hstrays => Bool.eq_false_iff.1 h (strays_of_advance hd hstrays)
    refine List.forall_mem_cons.2 ⟨hP.of_advance ?_ (List.forall_mem_nil _) hd, ih hrest⟩
    exact fun hstrays => absurd hstrays (Bool.eq_false_iff.1 h)

end IsKept

end BuildFiles.Reader
