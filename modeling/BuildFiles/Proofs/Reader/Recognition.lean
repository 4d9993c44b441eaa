import BuildFiles.Proofs.Reader.Remainder

/-!
# What forms start with

Where neither a blank nor a comment is left, a text goes on with a mark or with a token
(`isTokenChar_of_not_mem_marks`), so a lexeme of some kind starts there, if it may be a broken one.
A reading therefore `Recognizes` what it meets: none stops at a character that no lexeme starts with
(`recognizes_formsFrom`).
-/

namespace BuildFiles.Reader

variable {features : List String} {text : List Char} {stop : Stop} {α β : Type}

/-- Reading has stopped at a character that no lexeme starts with. -/
def Stop.IsStray : Stop → Prop
  | .malformed (.strayCharacter _) _ => True
  | _ => False

/-- It does not come to that. -/
def Recognizes (r : Except Stop α) : Prop := ∀ stop, r = .error stop → ¬ stop.IsStray

theorem Recognizes.ok (a : α) : Recognizes (.ok a) := fun _ h => by cases h

theorem Recognizes.error (h : ¬ stop.IsStray) : Recognizes (.error stop : Except Stop α) :=
  fun _ hstop => Except.error.inj hstop ▸ h

/-- What is made of the value does not bring about a stray character. -/
theorem Recognizes.map {r : Except Stop α} (h : Recognizes r) (f : α → β) :
    Recognizes (r.map f) := by
  cases r with
  | error stop => exact .error (h stop rfl)
  | ok a => exact .ok (f a)

/-! ## Lexemes -/

/-- Between quotes every character is taken. -/
theorem recognizes_stringBody (start cs : List Char) : Recognizes (stringBody start cs) := by
  fun_induction stringBody start cs with
  | case1 | case3 | case4 | case6 | case8 => exact .error id
  | case2 => exact .ok _
  | case5 a b c d cs x hx ih => exact ih.map _
  | case7 e cs h₁ h₂ x hx ih => exact ih.map _
  | case9 c cs h₁ h₂ h₃ h₄ h₅ ih => exact ih.map _

/-- Between the quotes of a pattern every character is taken as well. -/
theorem recognizes_regexBody (cs : List Char) : Recognizes (regexBody cs) := by
  fun_induction regexBody cs with
  | case1 | case3 => exact .error id
  | case2 => exact .ok _
  | case4 c cs ih => exact ih.map _
  | case5 c cs h₁ h₂ h₃ ih => exact ih.map _

/-- A token that names no character has a fault of its own. -/
theorem recognizes_character (t rest : List Char) : Recognizes (character t rest) := by
  unfold character
  dsimp only
  repeat' split
  all_goals first | exact .ok _ | exact .error id

theorem recognizes_scanCharacter (cs : List Char) : Recognizes (scanCharacter cs) := by
  unfold scanCharacter
  split
  · exact .error id
  · split
    · exact .ok _
    · next hstop => exact .error (recognizes_character _ _ _ hstop)

/-- What follows the number sign is a mark, or starts a tag, so that some case of the scan is taken
whatever it is. -/
theorem recognizes_scanDispatch (cs : List Char) : Recognizes (scanDispatch cs) := by
  unfold scanDispatch
  split
  case h_3 cs => exact (recognizes_regexBody cs).map _
  case h_6 =>
    unfold scanConditional
    split
    split
    · exact .ok _
    · exact .error id
  case h_7 =>
    unfold scanSymbolicValue
    dsimp only
    split_ifs <;> first | exact .ok _ | exact .error id
  case h_8 =>
    unfold scanQualifying
    split
    · exact .ok _
    · exact .error id
  case h_10 => exact .error id
  all_goals exact .ok _

/-- The characters of tokens and the marks are all that a lexeme can start with. -/
theorem isTokenChar_of_not_mem_marks {c : Char} (h : c ∉ marks) (hspace : isSpace c = false)
    (hcomment : c ≠ ';') : isTokenChar c = true := by
  simp only [marks, List.mem_cons, List.not_mem_nil, or_false, not_or] at h
  simp [isTokenChar, isDelimiter, hspace, hcomment, h]

/-- Every character that is not skipped starts something: a mark, a bracket or a token. This is why
the last case of the scan is never taken. -/
theorem recognizes_scan {c : Char} (hspace : isSpace c = false) (hcomment : c ≠ ';')
    (tail : List Char) : Recognizes (scan c tail) := by
  by_cases hc : c ∈ marks
  · unfold scan
    split
    case h_7 => exact (recognizes_stringBody tail tail).map _
    case h_8 => exact recognizes_scanCharacter tail
    case h_9 =>
      unfold scanKeyword
      split
      · exact .error id
      · exact .ok _
    case h_12 => split <;> exact .ok _
    case h_15 => exact recognizes_scanDispatch tail
    case h_16 => simp_all [marks]
    all_goals exact .ok _
  · -- the token that is left to start here is not empty
    have htoken : token (c :: tail) ≠ [] := by
      rw [token, List.takeWhile_cons_of_pos (isTokenChar_of_not_mem_marks hc hspace hcomment)]
      exact List.cons_ne_nil c _
    rw [scan_of_not_mem hc]
    split
    · exact .ok _
    · next stop hstop =>
      refine .error ?_
      unfold atomOf at hstop
      split_ifs at hstop with hempty
      · exact absurd (List.isEmpty_iff.1 hempty) htoken
      · split at hstop <;> cases hstop <;> exact id

/-! ## Steps -/

/-- Handing a form over has faults of its own only. -/
theorem recognizes_deliver (rest : List Char) (item : Item) (frames : List Frame) :
    Recognizes (deliver rest item frames) := by
  fun_induction deliver rest item frames with
  | case3 | case12 => exact .error id
  | case6 item head frames hitem ih => exact ih
  | case8 item metadata frames hitem result hattach ih => exact ih
  | case9 item metadata frames hitem stop hattach =>
    refine .error ?_
    unfold attach at hattach
    split at hattach
    · cases hattach
      exact id
    · split at hattach <;> cases hattach
  | case13 item n attached frames hitem ih => exact ih
  | _ => exact .ok _

theorem recognizes_select (splicing : Bool) (rest : List Char) (branches : List (Datum × Datum)) :
    Recognizes (select features splicing rest branches) := by
  induction branches with
  | nil => exact .ok _
  | cons branch branches ih =>
    obtain ⟨feature, form⟩ := branch
    rw [select]
    split
    · exact .error id
    · split_ifs
      · split
        · exact .ok _
        · exact .error id
      · exact .ok _
      · exact ih

theorem recognizes_mapOf (items : List Datum) (rest : List Char) :
    Recognizes (mapOf items rest) := by
  unfold mapOf
  split_ifs
  · exact .error id
  · split
    · exact .ok _
    · exact .error id

/-- Closing a bracket, of whatever kind, finds no character strange: its faults are those of what
the bracket holds. -/
theorem recognizes_closed (b : Bracket) (items : List Datum) (rest : List Char) :
    Recognizes (closed features b items rest) := by
  cases b with
  | round => exact .ok _
  | square => exact .ok _
  | function => exact .ok _
  | set =>
    refine Recognizes.map ?_ _
    unfold setOf
    split
    · exact .ok _
    · exact .error id
  | curly => exact (recognizes_mapOf items rest).map _
  | qualifying space => exact (recognizes_mapOf items rest).map _
  | conditional splicing =>
    rw [closed]
    split_ifs
    · exact .error id
    · exact recognizes_select splicing rest (pairs items)

/-- Taking in a lexeme finds no character strange, whatever it completes or closes. -/
theorem recognizes_push (rest : List Char) (frames : List Frame) (x : Lexeme) :
    Recognizes (push features rest frames x) := by
  cases x with
  | atom d => exact recognizes_deliver rest _ frames
  | closing delimiter =>
    change Recognizes (close features delimiter rest frames)
    unfold close
    split
    · split_ifs
      · split
        · exact recognizes_deliver rest _ _
        · next hstop => exact .error (recognizes_closed _ _ _ _ hstop)
      · exact .error id
    · exact .error id
  | _ => exact .ok _

/-! ## Whole readings -/

/-- No reading stops at a character that no lexeme starts with, whatever the text is. -/
theorem recognizes_advance (features : List String) (frames : List Frame) (cs : List Char) :
    Recognizes (advance features frames cs) := by
  fun_induction advance features frames cs with
  | case1 frames cs hskip stop hend =>
    refine .error ?_
    unfold endFault? at hend
    split at hend <;> cases hend <;> exact id
  | case2 => exact .ok _
  | case3 frames cs c tail hskip stop hscan =>
    obtain ⟨hspace, hcomment⟩ := skipBlank_eq_cons hskip
    exact .error (recognizes_scan hspace hcomment tail stop hscan)
  | case4 frames cs c tail hskip x rest hscan stop hpush =>
    exact .error (recognizes_push rest frames x stop hpush)
  | case5 => exact .ok _
  | case6 frames cs c tail hskip x rest hscan frames' hpush ih => exact ih

/-- No reading stops at a stray character. -/
theorem recognizes_formsFrom (features : List String) (cs : List Char) :
    ∀ stop, (formsFrom features cs).2 = some stop → ¬ stop.IsStray := by
  fun_induction formsFrom features cs with
  | case1 cs stop hstop =>
    rintro stop' ⟨⟩
    exact recognizes_advance features [] cs stop hstop
  | case2 => rintro stop' ⟨⟩
  | case3 cs d rest hd ds stop hmore ih => rwa [hmore] at ih

/-- A fault that tells of a stray character comes from nothing else. -/
theorem isStray_of_fault {s : String} {line : Nat} (hstop : stop.IsWithin text)
    (h : stop.fault text = .malformed (.strayCharacter s) line) : stop.IsStray := by
  cases stop with
  | malformed cause rest =>
    cases h
    trivial
  | worthless fault =>
    obtain rfl : fault = .malformed (.strayCharacter s) line := h
    exact hstop.elim

end BuildFiles.Reader
