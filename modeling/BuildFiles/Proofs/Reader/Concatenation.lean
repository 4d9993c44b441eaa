import BuildFiles.Proofs.Reader.Remainder

/-!
# Texts one after the other

A text that can be read to its end may be followed by another one on a new line: then the forms of
the first come before those of the second, and what stops the second stops both at the same place,
which is told with as many lines more as the first has (`forms_append`).
-/

namespace BuildFiles.Reader

variable {features : List String} {cs rest u : List Char} {frames base : List Frame}

theorem endFault?_eq_none (h : endFault? frames = none) : frames = [] := by
  unfold endFault? at h
  split at h
  · rfl
  · cases h
  · cases h

/-- A step is the same when a new line follows and there are more forms around. A comment may go on
up to the new line instead of up to the end of the text, which leaves the same forms. -/
theorem advance_of_scan_lineFeed {c : Char} {tail : List Char} {x : Lexeme} {p : Progress}
    (hskip : skipBlank cs = c :: tail) (hscan : scan c tail = .ok (x, rest))
    (hpush : push features rest frames x = .ok p) :
    advance features (frames.map (Frame.before ('\n' :: u)) ++ base) (cs ++ '\n' :: u) =
      resume features (rest ++ '\n' :: u)
        ((p.before ('\n' :: u)).over (rest ++ '\n' :: u) base) := by
  by_cases hgap : x = .gap
  · subst hgap
    cases hpush
    obtain ⟨rfl, line, rfl, rfl⟩ := scan_isFrom hscan
    rw [advance_of_scan (skipBlank_append_cons hskip) (x := .gap) rfl]
    exact advance_congr (skipBlank_afterLine_append line u)
  · rw [advance_of_scan (skipBlank_append_cons hskip)
      (scan_append hscan (.inr rfl) fun h => absurd h hgap), push_over (push_append hpush)]

/-- What comes of a reading inside of the frames `base` when a new line with the text `u` follows: a
form that was read is handed to them, and where the text ended `u` is read. -/
def followedBy (features : List String) (u : List Char) (base : List Frame) :
    Option (Datum × List Char) → Except Stop (Option (Datum × List Char))
  | some (d, rest) =>
    resume features (rest ++ '\n' :: u) (deliver (rest ++ '\n' :: u) (.form d) base)
  | none => advance features base u

theorem advance_append_lineFeed (base : List Frame) {result : Option (Datum × List Char)}
    (h : advance features frames cs = .ok result) :
    advance features (frames.map (Frame.before ('\n' :: u)) ++ base) (cs ++ '\n' :: u) =
      followedBy features u base result := by
  fun_induction advance features frames cs with
  | case1 => cases h
  | case2 frames cs hskip hend =>
    -- the text ends between two forms, so that only the frames around are open when `u` is read
    cases h
    obtain rfl := endFault?_eq_none hend
    exact advance_congr (skipBlank_append_lineFeed cs hskip)
  | case3 => cases h
  | case4 => cases h
  | case5 frames cs c tail hskip x rest hscan d hpush =>
    cases h
    exact advance_of_scan_lineFeed hskip hscan hpush
  | case6 frames cs c tail hskip x rest hscan frames' hpush ih =>
    rw [advance_of_scan_lineFeed hskip hscan hpush]
    exact ih h

/-! ## All forms -/

theorem formsFrom_append_lineFeed {ds : List Datum} (h : formsFrom features cs = (ds, none)) :
    formsFrom features (cs ++ '\n' :: u) =
      (ds ++ (formsFrom features u).1, (formsFrom features u).2) := by
  fun_induction formsFrom features cs generalizing ds with
  | case1 cs stop hstop => cases h
  | case2 cs hend =>
    cases h
    exact formsFrom_congr (advance_append_lineFeed [] hend)
  | case3 cs d rest hd ds' stop hrest ih =>
    cases h
    rw [formsFrom_of_some (advance_append_lineFeed [] hd), ih hrest]
    rfl

end BuildFiles.Reader

namespace BuildFiles

/-! ## Lines -/

/-- The fault when so many lines stand before the text that it was found in. -/
def ReadFault.lower (lines : Nat) : ReadFault → ReadFault
  | .malformed cause line => .malformed cause (line + lines)
  | fault => fault

namespace Reader

variable {features : List String}

theorem lineAt_append {b rest : List Char} (h : rest <:+ b) (a : List Char) :
    lineAt (a ++ '\n' :: b) rest = lineAt b rest + (Text.lineFeeds a + 1) := by
  -- no line feed is taken from fewer, as the rest is an end of `b`
  have hle : Text.lineFeeds rest ≤ Text.lineFeeds b := h.sublist.count_le '\n'
  have hb : Text.lineFeeds ('\n' :: b) = Text.lineFeeds b + 1 := List.count_cons_self
  rw [lineAt, lineAt, Text.lineFeeds_append, hb]
  omega

theorem Stop.fault_append {stop : Stop} {b : List Char} (h : stop.IsWithin b) (a : List Char) :
    stop.fault (a ++ '\n' :: b) = (stop.fault b).lower (Text.lineFeeds a + 1) := by
  cases stop with
  | malformed cause rest =>
    rw [Stop.fault, Stop.fault, ReadFault.lower, lineAt_append h a]
  | worthless fault =>
    cases fault with
    | malformed cause line => exact absurd h id
    | _ => rfl

/-- If the first of two texts can be read to its end, what is read of both, the second on a new
line, are the forms of the first and then those of the second. What stops the second stops both with
the same of the text left, and is told as many lines further down as stand before it. -/
theorem forms_append {a : String} {ds : List Datum} (h : forms a features = (ds, none))
    (b : String) :
    forms (a ++ "\n" ++ b) features = (ds ++ (forms b features).1,
        (forms b features).2.map (ReadFault.lower (Text.lineFeeds a.toList + 1))) ∧
      (formsFrom features (a ++ "\n" ++ b).toList).2 = (formsFrom features b.toList).2 := by
  have htext : (a ++ "\n" ++ b).toList = a.toList ++ '\n' :: b.toList := by
    simp
  have ha : formsFrom features a.toList = (ds, none) := by
    obtain ⟨hds, hstop⟩ := Prod.mk.inj h
    exact Prod.ext hds (Option.map_eq_none_iff.1 hstop)
  have hboth := formsFrom_append_lineFeed (u := b.toList) ha
  rcases hb : formsFrom features b.toList with ⟨ds', _ | stop⟩
  · rw [hb] at hboth
    simp only [forms, htext, hboth, hb, Option.map_none, and_self]
  · rw [hb] at hboth
    simp only [forms, htext, hboth, hb, Option.map_some,
      Stop.fault_append (formsFrom_within hb) a.toList, and_self]

/-- The comment at the end of the first text does not reach into the second, and the fault on the
third line of the second is one on the fifth line of both. -/
theorem forms_append_of_comment :
    forms "(a)\nb ; c" [] = ([.list [.sym "a"], .sym "b"], none) ∧
      forms ("(a)\nb ; c" ++ "\n" ++ "d\n\n(e") [] =
        ([.list [.sym "a"], .sym "b", .sym "d"], some (.malformed (.unclosed ')') 5)) := by
  have ha : forms "(a)\nb ; c" [] = ([.list [.sym "a"], .sym "b"], none) := by
    with_unfolding_all rfl
  have hb : forms "d\n\n(e" [] = ([.sym "d"], some (.malformed (.unclosed ')') 3)) := by
    with_unfolding_all rfl
  refine ⟨ha, ?_⟩
  rw [(forms_append ha "d\n\n(e").1, hb]
  rfl

end Reader

end BuildFiles
