import BuildFiles.Proofs.Reader.Stack

/-!
# What reading leaves of a text

What is left of a text after a lexeme or a form is an end of it (`advance_suffix`), and so is what
is left where a reading stops (`advance_within`). So the lines that are told in a fault can be
counted from the end. Faults of values tell no line.
-/

namespace BuildFiles

/-- The fault tells no line. -/
def ReadFault.IsLineless : ReadFault → Prop
  | .malformed .. => False
  | _ => True

namespace Reader

variable {features : List String} {cs rest text text' : List Char} {frames : List Frame}
  {α β : Type}

/-! ## Lexemes -/

/-- If reading stopped at a place, it lies in the text. -/
def Stop.IsWithin (text : List Char) : Stop → Prop
  | .malformed _ rest => rest <:+ text
  | .worthless fault => fault.IsLineless

/-- What is left of the text, or is left of it where reading stopped, is an end of it. -/
def Within (text : List Char) : Except Stop (α × List Char) → Prop
  | .ok (_, rest) => rest <:+ text
  | .error stop => stop.IsWithin text

/-- A stop within a text is within every text that it is a rest of. -/
theorem Stop.IsWithin.mono {stop : Stop} (h : stop.IsWithin text) (htext : text <:+ text') :
    stop.IsWithin text' := by
  cases stop with
  | malformed cause rest => exact List.IsSuffix.trans h htext
  | worthless fault => exact h

/-- An end within a text, with its rest, is within every text that it is a rest of. -/
theorem Within.mono {x : Except Stop (α × List Char)} (h : Within text x) (htext : text <:+ text') :
    Within text' x := by
  cases x with
  | error stop => exact Stop.IsWithin.mono h htext
  | ok p => exact List.IsSuffix.trans h htext

/-- What is made of the value does not matter to where the reading is. -/
theorem Within.map {x : Except Stop (α × List Char)} (h : Within text x) (f : α → β) :
    Within text (x.map fun p => (f p.1, p.2)) := by
  cases x with
  | error stop => exact h
  | ok p => exact h

/-- What follows a token is a rest of the text. -/
theorem afterToken_suffix (cs : List Char) : afterToken cs <:+ cs := List.dropWhile_suffix _

mutual

/-- What follows blanks and comments is a rest of the text. -/
theorem skipBlank_suffix : ∀ cs : List Char, skipBlank cs <:+ cs
  | [] => List.suffix_refl []
  | c :: cs => by
    unfold skipBlank
    split
    · exact (skipBlank_suffix cs).trans (List.suffix_cons c cs)
    · split
      · exact (skipComment_suffix cs).trans (List.suffix_cons c cs)
      · exact List.suffix_refl _

/-- What follows a comment is a rest of the text that the comment started in. -/
theorem skipComment_suffix : ∀ cs : List Char, skipComment cs <:+ cs
  | [] => List.suffix_refl []
  | c :: cs => by
    unfold skipComment
    split
    · exact (skipBlank_suffix cs).trans (List.suffix_cons c cs)
    · exact (skipComment_suffix cs).trans (List.suffix_cons c cs)

end

/-- A code that is no character is refused without a line. -/
theorem characterIn_isLineless {base : Nat} {fault : ReadFault}
    (h : characterIn base cs = .error fault) : fault.IsLineless := by
  unfold characterIn characterOf at h
  split at h
  · split_ifs at h <;> cases h <;> trivial
  · cases h
    trivial

/-- Digits that are too many are refused without a line. -/
theorem decimalInteger_isLineless {fault : ReadFault} (h : decimalInteger cs = .error fault) :
    fault.IsLineless := by
  unfold decimalInteger at h
  split_ifs at h
  cases h
  trivial

/-- An integer is refused without a line, in whatever base. -/
theorem integer?_isLineless {fault : ReadFault} (h : integer? cs = some (.error fault)) :
    fault.IsLineless := by
  unfold integer? at h
  dsimp only at h
  split at h
  · split_ifs at h <;> cases h
  · split_ifs at h
    · exact decimalInteger_isLineless (Option.some.inj h)
    · split at h <;> cases h
      trivial

/-- A ratio is refused without a line as well, for its digits or for what is below the stroke. -/
theorem ratioOf_isLineless {negative : Bool} {num den : List Char} {fault : ReadFault}
    (h : ratioOf negative num den = .error fault) : fault.IsLineless := by
  unfold ratioOf at h
  cases hnum : decimalInteger num with
  | error e =>
    rw [hnum] at h
    cases h
    exact decimalInteger_isLineless hnum
  | ok n =>
    cases hden : decimalInteger den with
    | error e =>
      rw [hnum, hden] at h
      cases h
      exact decimalInteger_isLineless hden
    | ok d =>
      rw [hnum, hden] at h
      change (if d = 0 then .error .zeroDenominator else .ok _) = Except.error fault at h
      split_ifs at h
      cases h
      trivial

/-- Whatever is wrong with what is taken for a ratio, it is refused without a line. -/
theorem ratio?_isLineless {negative : Bool} {fault : ReadFault}
    (h : ratio? negative cs = some (.error fault)) : fault.IsLineless := by
  unfold ratio? at h
  obtain ⟨⟨num, den⟩, -, h⟩ := Option.bind_eq_some_iff.1 h
  obtain ⟨-, -, h⟩ := Option.bind_eq_some_iff.1 h
  exact ratioOf_isLineless (Option.some.inj h)

/-- Put together, no number is refused at a line. -/
theorem number?_isLineless {fault : ReadFault} (h : number? cs = some (.error fault)) :
    fault.IsLineless := by
  unfold number? at h
  dsimp only at h
  split at h
  · cases h
  · next e he =>
    cases h
    exact integer?_isLineless he
  · split at h
    · cases h
    · obtain ⟨r, hr, hfault⟩ := Option.map_eq_some_iff.1 h
      cases r with
      | ok q => cases hfault
      | error e =>
        cases hfault
        exact ratio?_isLineless hr

/-- A text is read within the text that it started in; one without an end stops where it started. -/
theorem stringBody_within (start : List Char) (hcs : cs <:+ start) :
    Within start (stringBody start cs) := by
  -- some faults tell where the literal starts, so the ends are taken of `start` and not of `cs`
  fun_induction stringBody start cs with
  | case1 => exact List.suffix_refl start
  | case2 cs => exact (List.suffix_cons _ cs).trans hcs
  | case3 => exact List.nil_suffix
  | case4 a b c d cs fault hfault => exact characterIn_isLineless hfault
  | case5 a b c d cs x hx ih =>
    exact (ih (.trans ⟨['\\', 'u', a, b, c, d], rfl⟩ hcs)).map (x :: ·)
  | case6 cs => exact .trans ⟨['\\', 'u'], rfl⟩ hcs
  | case7 e cs hu he x hx ih => exact (ih (.trans ⟨['\\', e], rfl⟩ hcs)).map (x :: ·)
  | case8 e cs => exact .trans ⟨['\\', e], rfl⟩ hcs
  | case9 c cs h₁ h₂ h₃ h₄ h₅ ih => exact (ih ((List.suffix_cons c cs).trans hcs)).map (c :: ·)

/-- A pattern is read within the text that it started in; one without an end stops where it
started. -/
theorem regexBody_within (cs : List Char) : Within cs (regexBody cs) := by
  fun_induction regexBody cs with
  | case1 => exact List.suffix_refl []
  | case2 cs => exact List.suffix_cons _ cs
  | case3 => exact List.nil_suffix
  | case4 c cs ih => exact (ih.mono ⟨['\\', c], rfl⟩).map fun s => '\\' :: c :: s
  | case5 c cs h₁ h₂ h₃ ih => exact (ih.mono (List.suffix_cons c cs)).map (c :: ·)

/-- A token that names no character stops where it ends. -/
theorem character_within {t rest : List Char} {stop : Stop} (h : character t rest = .error stop) :
    stop.IsWithin rest := by
  unfold character at h
  dsimp only at h
  split at h
  · cases h
  · split at h
    · cases h
    · split_ifs at h
      · split at h <;> cases h
        next hfault => exact characterIn_isLineless hfault
      · split at h <;> cases h
        next hfault => exact characterIn_isLineless hfault
      · cases h
        exact List.suffix_refl rest
  · cases h
    exact List.suffix_refl rest

theorem scanCharacter_within (cs : List Char) : Within cs (scanCharacter cs) := by
  cases cs with
  | nil => exact List.suffix_refl []
  | cons c cs =>
    have hafter : afterToken cs <:+ c :: cs := (afterToken_suffix cs).trans (List.suffix_cons c cs)
    rw [scanCharacter]
    split
    · exact hafter
    · next stop hstop => exact (character_within hstop).mono hafter

theorem dropColon_suffix (cs : List Char) : dropColon cs <:+ cs := by
  unfold dropColon
  split
  · exact List.suffix_cons _ _
  · exact List.suffix_refl _

/-- A keyword is read within the text. -/
theorem scanKeyword_within (cs : List Char) : Within cs (scanKeyword cs) := by
  rw [scanKeyword]
  split
  · exact dropColon_suffix cs
  · exact (afterToken_suffix _).trans (dropColon_suffix cs)

theorem scanSymbolicValue_within (cs : List Char) : Within cs (scanSymbolicValue cs) := by
  rw [scanSymbolicValue]
  split_ifs <;> exact afterToken_suffix cs

theorem scanBranches_within (splicing : Bool) (cs : List Char) :
    Within cs (scanBranches splicing cs) := by
  have hskip := skipBlank_suffix cs
  rw [scanBranches]
  split
  · next rest hrest =>
    rw [hrest] at hskip
    exact (List.suffix_cons _ rest).trans hskip
  · exact hskip

theorem scanConditional_within (cs : List Char) : Within cs (scanConditional cs) := by
  cases cs with
  | nil => exact List.suffix_refl []
  | cons c cs =>
    by_cases hc : c = '@'
    · subst hc
      exact (scanBranches_within true cs).mono (List.suffix_cons _ cs)
    · rw [scanConditional_cons hc]
      exact scanBranches_within false (c :: cs)

theorem scanQualifying_within (cs : List Char) : Within cs (scanQualifying cs) := by
  have hskip := (skipBlank_suffix (afterToken cs)).trans (afterToken_suffix cs)
  rw [scanQualifying]
  split
  · next rest hrest =>
    rw [hrest] at hskip
    exact (List.suffix_cons _ rest).trans hskip
  · exact hskip

/-- All that starts with the number sign is read within the text. -/
theorem scanDispatch_within (cs : List Char) : Within cs (scanDispatch cs) := by
  unfold scanDispatch
  split
  case h_3 cs =>
    exact ((regexBody_within cs).mono (List.suffix_cons _ cs)).map
      fun s => Lexeme.atom (.regex (String.ofList s))
  case h_6 cs => exact (scanConditional_within cs).mono (List.suffix_cons _ cs)
  case h_7 cs => exact (scanSymbolicValue_within cs).mono (List.suffix_cons _ cs)
  case h_8 cs => exact (scanQualifying_within cs).mono (List.suffix_cons _ cs)
  case h_9 cs => exact (Text.afterLine_suffix cs).trans (List.suffix_cons _ cs)
  case h_10 cs => exact List.suffix_refl _
  case h_11 => exact List.suffix_refl _
  all_goals exact List.suffix_cons _ _

/-- A token that cannot be read stops where it ends. -/
theorem atomOf_within {t rest : List Char} {stop : Stop} (h : atomOf t rest = .error stop) :
    stop.IsWithin rest := by
  unfold atomOf at h
  split_ifs at h
  · cases h
    exact List.suffix_refl rest
  · split at h <;> cases h
    · next hfault => exact number?_isLineless hfault
    · exact List.suffix_refl rest

/-- Every lexeme is read within the text that it starts in, and so is the stop if there is none: the
rest is an end of the text. -/
theorem scan_within (c : Char) (cs : List Char) : Within (c :: cs) (scan c cs) := by
  by_cases hc : c ∈ marks
  · unfold scan
    split
    case h_7 =>
      exact ((stringBody_within cs (List.suffix_refl cs)).mono (List.suffix_cons _ cs)).map
        fun s => Lexeme.atom (.str (String.ofList s))
    case h_8 => exact (scanCharacter_within cs).mono (List.suffix_cons _ cs)
    case h_9 => exact (scanKeyword_within cs).mono (List.suffix_cons _ cs)
    case h_12 =>
      split
      · exact .trans (List.suffix_cons _ _) (List.suffix_cons _ _)
      · exact List.suffix_cons _ cs
    case h_15 => exact (scanDispatch_within cs).mono (List.suffix_cons _ cs)
    case h_16 => simp_all [marks]
    all_goals exact List.suffix_cons _ cs
  · rw [scan_of_not_mem hc]
    split
    · exact afterToken_suffix (c :: cs)
    · next stop hstop => exact (atomOf_within hstop).mono (afterToken_suffix (c :: cs))

/-! ## Steps -/

/-- What the frame remembers of the text is an end of it. -/
def Frame.IsWithin (text : List Char) : Frame → Prop
  | .collecting _ opened _ => opened <:+ text
  | _ => True

/-- A step that succeeds leaves frames within the text, and one that fails stops there. -/
def StepWithin (text : List Char) : Except Stop Progress → Prop
  | .ok (.complete _) => True
  | .ok (.pending frames) => ∀ f ∈ frames, f.IsWithin text
  | .error stop => stop.IsWithin text

/-- Metadata that cannot be attached stops where the form ends. -/
theorem attach_within {metadata : Datum} {target : Item} {stop : Stop}
    (h : attach metadata target rest = .error stop) : stop.IsWithin rest := by
  unfold attach at h
  split at h
  · cases h
    exact List.suffix_refl rest
  · split at h <;> cases h

/-- Handing a form over goes on from the same place, with frames that were opened within the
text. -/
theorem deliver_within (item : Item) (hrest : rest <:+ text)
    (hframes : ∀ f ∈ frames, f.IsWithin text) : StepWithin text (deliver rest item frames) := by
  fun_induction deliver rest item frames with
  | case1 frames => exact hframes
  | case2 d => trivial
  | case3 ds => exact hrest
  | case4 d b opened items frames =>
    obtain ⟨hopened, hrest⟩ := List.forall_mem_cons.1 hframes
    exact List.forall_mem_cons.2 ⟨hopened, hrest⟩
  | case5 ds b opened items frames =>
    obtain ⟨hopened, hrest⟩ := List.forall_mem_cons.1 hframes
    exact List.forall_mem_cons.2 ⟨hopened, hrest⟩
  | case6 item head frames hitem ih => exact ih (List.forall_mem_cons.1 hframes).2
  | case7 item frames hitem =>
    exact List.forall_mem_cons.2 ⟨trivial, (List.forall_mem_cons.1 hframes).2⟩
  | case8 item metadata frames hitem result hattach ih =>
    exact ih (List.forall_mem_cons.1 hframes).2
  | case9 item metadata frames hitem stop hattach => exact (attach_within hattach).mono hrest
  | case10 item frames hitem => exact (List.forall_mem_cons.1 hframes).2
  | case11 item frames hitem n attached hdatum =>
    exact List.forall_mem_cons.2 ⟨trivial, (List.forall_mem_cons.1 hframes).2⟩
  | case12 => exact hrest
  | case13 item n attached frames hitem ih => exact ih (List.forall_mem_cons.1 hframes).2

/-- A conditional that is not well formed stops where it closes. -/
theorem select_within {splicing : Bool} {branches : List (Datum × Datum)} {stop : Stop}
    (h : select features splicing rest branches = .error stop) : stop.IsWithin rest := by
  induction branches with
  | nil => cases h
  | cons branch branches ih =>
    obtain ⟨feature, form⟩ := branch
    rw [select] at h
    split at h
    · cases h
      exact List.suffix_refl rest
    · split_ifs at h
      · split at h <;> cases h
        exact List.suffix_refl rest
      · exact ih h

/-- A map without an even number of forms stops where it closes. -/
theorem mapOf_within {items : List Datum} {stop : Stop} (h : mapOf items rest = .error stop) :
    stop.IsWithin rest := by
  unfold mapOf at h
  split_ifs at h
  · cases h
    exact List.suffix_refl rest
  · split at h <;> cases h
    trivial

/-- Every bracket that is refused is refused where it closes, which is an end of the text. -/
theorem closed_within {b : Bracket} {items : List Datum} {stop : Stop}
    (h : closed features b items rest = .error stop) : stop.IsWithin rest := by
  -- two of the brackets hold maps, whose faults are those of `mapOf`
  have hmap : ∀ f : Entries Datum Datum → Item,
      (mapOf items rest).map f = .error stop → stop.IsWithin rest := by
    intro f hf
    rcases hes : mapOf items rest with stop' | es
    · rw [hes] at hf
      cases hf
      exact mapOf_within hes
    · rw [hes] at hf
      cases hf
  cases b with
  | round => cases h
  | square => cases h
  | function => cases h
  | set =>
    rw [closed, setOf] at h
    split at h <;> cases h
    trivial
  | curly => exact hmap _ h
  | qualifying space => exact hmap _ h
  | conditional splicing =>
    rw [closed] at h
    split_ifs at h
    · cases h
      exact List.suffix_refl rest
    · exact select_within h

/-- Closing a bracket stays within the text. -/
theorem close_within (delimiter : Char) (hrest : rest <:+ text)
    (hframes : ∀ f ∈ frames, f.IsWithin text) :
    StepWithin text (close features delimiter rest frames) := by
  unfold close
  split
  · next b opened items frames =>
    split_ifs
    · split
      · exact deliver_within _ hrest (List.forall_mem_cons.1 hframes).2
      · next stop hstop => exact (closed_within hstop).mono hrest
    · exact hrest
  · exact hrest

/-- Frames of ends of a text stay such, and a step that fails tells of an end of the text. -/
theorem push_within (features : List String) (x : Lexeme) (hrest : rest <:+ text)
    (hframes : ∀ f ∈ frames, f.IsWithin text) :
    StepWithin text (push features rest frames x) := by
  cases x with
  | atom d => exact deliver_within _ hrest hframes
  | closing delimiter => exact close_within delimiter hrest hframes
  | gap => exact hframes
  | opening b => exact List.forall_mem_cons.2 ⟨hrest, hframes⟩
  | _ => exact List.forall_mem_cons.2 ⟨trivial, hframes⟩

/-- At the end of the text the fault is at a frame that is still open, which is within it. -/
theorem endFault?_within {stop : Stop} (hframes : ∀ f ∈ frames, f.IsWithin text)
    (h : endFault? frames = some stop) : stop.IsWithin text := by
  unfold endFault? at h
  split at h
  · cases h
  · cases h
    exact (List.forall_mem_cons.1 hframes).1
  · cases h
    exact List.nil_suffix

/-- Skipping blanks and scanning a lexeme leads to a rest of the text. -/
theorem suffix_of_scan {c : Char} {tail : List Char} {x : Lexeme} (hskip : skipBlank cs = c :: tail)
    (hscan : scan c tail = .ok (x, rest)) : rest <:+ cs := by
  have hrest := scan_within c tail
  rw [hscan] at hrest
  exact List.IsSuffix.trans hrest (hskip ▸ skipBlank_suffix cs)

/-- Wherever a reading stops, an end of the text is left. By induction on the steps, with the places
at which the frames have started as part of the invariant, since it is there that a missing bracket
is told. -/
theorem advance_within {stop : Stop} (hcs : cs <:+ text) (hframes : ∀ f ∈ frames, f.IsWithin text)
    (h : advance features frames cs = .error stop) : stop.IsWithin text := by
  fun_induction advance features frames cs with
  | case1 frames cs hskip stop' hend =>
    cases h
    exact endFault?_within hframes hend
  | case2 => cases h
  | case3 frames cs c tail hskip stop' hscan =>
    cases h
    have hstop := scan_within c tail
    rw [hscan] at hstop
    exact Stop.IsWithin.mono hstop (hskip ▸ (skipBlank_suffix cs).trans hcs)
  | case4 frames cs c tail hskip x rest hscan stop' hpush =>
    cases h
    have hstep := push_within features x ((suffix_of_scan hskip hscan).trans hcs) hframes
    rw [hpush] at hstep
    exact hstep
  | case5 => cases h
  | case6 frames cs c tail hskip x rest hscan frames' hpush ih =>
    have hrest := (suffix_of_scan hskip hscan).trans hcs
    have hstep := push_within features x hrest hframes
    rw [hpush] at hstep
    exact ih hrest hstep h

/-- What is left after a form is an end of the text. -/
theorem advance_suffix {d : Datum} (h : advance features frames cs = .ok (some (d, rest))) :
    rest <:+ cs := by
  fun_induction advance features frames cs with
  | case1 => cases h
  | case2 => cases h
  | case3 => cases h
  | case4 => cases h
  | case5 frames cs c tail hskip x rest' hscan d' hpush =>
    cases h
    exact suffix_of_scan hskip hscan
  | case6 frames cs c tail hskip x rest' hscan frames' hpush ih =>
    exact (ih h).trans (suffix_of_scan hskip hscan)

/-- A reading of all forms stops within the text. -/
theorem formsFrom_within {ds : List Datum} {stop : Stop}
    (h : formsFrom features cs = (ds, some stop)) : stop.IsWithin cs := by
  fun_induction formsFrom features cs generalizing ds with
  | case1 cs stop' hstop =>
    cases h
    exact advance_within (List.suffix_refl cs) (by simp) hstop
  | case2 => cases h
  | case3 cs d rest hd ds' stop' hrest ih =>
    cases h
    exact (ih hrest).mono (advance_suffix hd)

end Reader

end BuildFiles
