import BuildFiles.Datum.Plain
import BuildFiles.Datum.Render
import BuildFiles.Proofs.Computation
import Mathlib.Data.Nat.Digits.Defs
import Mathlib.Tactic.SplitIfs

/-!
# Integers that are too long to be written

An integer is long if it has more than `Text.longestNumeral` decimal digits, which is to say that it
is ten to that power or more: `Datum.isLong_iff`. It can be read, in a base that is a power of two,
but it is written nowhere: neither in a diagnostic nor in a build file. The lemmas here tell which
data hold one by their parts, and what comes of those that do where data are written
(`Datum.written_eq_ok_iff`), sorted (`Datum.sortedByText_eq_ok_iff`) and rendered
(`Datum.holdsLongInteger_of_render`, `Datum.isOfRendering_of_render`).
-/

namespace BuildFiles

/-- A fault that is to show a datum is that fault, or it is that the datum cannot be shown. -/
theorem Fault.of_showing {P : Fault → Prop} {fault : Fault} (d : Datum) (h : P fault)
    (hlong : P .longInteger) : P (Fault.showing d fault) := by
  rw [Fault.showing]
  split_ifs
  · exact hlong
  · exact h

namespace Datum

/-! ## Digits -/

/-- A number is below the power of ten with as many zeros as it has digits. -/
theorem lt_pow_length_toDigits (k : Nat) : k < 10 ^ (Nat.toDigits 10 k).length := by
  induction k using Nat.strongRecOn with
  | ind k ih =>
    rw [Nat.toDigits_eq_if (by decide)]
    split_ifs with hk
    · simpa using hk
    · have hlt := ih (k / 10) (by omega)
      rw [List.length_append, List.length_singleton, Nat.pow_succ]
      omega

/-- The long integers are those that are too far from zero. -/
theorem isLong_iff (n : Int) : isLong n = true ↔ 10 ^ Text.longestNumeral ≤ n.natAbs := by
  rw [isLong, decide_eq_true_iff]
  constructor
  · intro h
    by_contra hlt
    exact Nat.not_lt.2 (Nat.toDigits_length 10 _ _ (by decide) (Nat.not_le.1 hlt)) h
  · intro h
    by_contra hlength
    have hle : 10 ^ (Nat.toDigits 10 n.natAbs).length ≤ 10 ^ Text.longestNumeral :=
      Nat.pow_le_pow_right (by decide) (Nat.not_lt.1 hlength)
    exact Nat.not_le.2 (Nat.lt_of_lt_of_le (lt_pow_length_toDigits _) hle) h

/-- The least integer that is long. -/
def leastLong : Int := (10 ^ Text.longestNumeral : Nat)

/-- Ten to the power of the limit is long: it has one digit more than can be written. -/
theorem isLong_leastLong : isLong leastLong = true := (isLong_iff leastLong).2 (Nat.le_refl _)

/-! ## The parts of data -/

/-- Items hold no long integer if none of them does. -/
theorem anyHoldsLong_eq_false_iff {ds : List Datum} :
    anyHoldsLong ds = false ↔ ∀ d ∈ ds, d.holdsLongInteger = false := by
  induction ds with
  | nil => exact iff_of_true rfl (List.forall_mem_nil _)
  | cons d ds ih => rw [anyHoldsLong, Bool.or_eq_false_iff, ih, List.forall_mem_cons]

/-- Entries hold none if no key and no value does. -/
theorem anyEntryHoldsLong_eq_false_iff {es : List (Datum × Datum)} :
    anyEntryHoldsLong es = false ↔
      ∀ e ∈ es, e.1.holdsLongInteger = false ∧ e.2.holdsLongInteger = false := by
  induction es with
  | nil => exact iff_of_true rfl (List.forall_mem_nil _)
  | cons e es ih =>
    rw [anyEntryHoldsLong, Bool.or_eq_false_iff, Bool.or_eq_false_iff, ih, List.forall_mem_cons]

theorem anyArgumentHoldsLong_eq_false_iff {es : List (String × Datum)} :
    anyArgumentHoldsLong es = false ↔ ∀ e ∈ es, e.2.holdsLongInteger = false := by
  induction es with
  | nil => exact iff_of_true rfl (List.forall_mem_nil _)
  | cons e es ih => rw [anyArgumentHoldsLong, Bool.or_eq_false_iff, ih, List.forall_mem_cons]

/-! ## What is written -/

/-- A datum is written, as its text, just if it holds no long integer. -/
theorem written_eq_ok_iff {d : Datum} {s : String} :
    d.written = .ok s ↔ d.holdsLongInteger = false ∧ d.text = s := by
  rw [written]
  cases d.holdsLongInteger with
  | true => exact iff_of_false nofun fun h => Bool.noConfusion h.1
  | false => exact ⟨fun h => ⟨rfl, Except.ok.inj h⟩, fun h => congrArg Except.ok h.2⟩

/-- Only a long integer keeps a datum from being written. -/
theorem failsBy_written (d : Datum) : Except.FailsBy (· = .longInteger) d.written := by
  rw [written]
  split_ifs
  · exact .error rfl
  · exact .ok _

/-- Data are sorted by their texts just if each of them can be written; that there may be only one,
which needs no comparing, makes no difference. -/
theorem sortedByText_eq_ok_iff {ds sorted : List Datum} :
    sortedByText ds = .ok sorted ↔
      (∀ d ∈ ds, d.holdsLongInteger = false) ∧
        ds.mergeSort (fun a b => decide (a.text ≤ b.text)) = sorted := by
  rw [← anyHoldsLong_eq_false_iff, sortedByText]
  cases anyHoldsLong ds with
  | true => exact iff_of_false nofun fun h => Bool.noConfusion h.1
  | false => exact ⟨fun h => ⟨rfl, Except.ok.inj h⟩, fun h => congrArg Except.ok h.2⟩

/-! ## What is rendered -/

mutual

/-- What is rendered holds no long integer. -/
theorem holdsLongInteger_of_render : ∀ {d : Datum} {text : String}, d.render = .ok text →
    d.holdsLongInteger = false
  | .bool _, _, _ | .str _, _, _ | .path _, _, _ | .bare _, _, _ => rfl
  | .int _, _, h => (written_eq_ok_iff.1 h).1
  | .list xs, _, h | .vector xs, _, h | .call _ xs, _, h => by
    obtain ⟨texts, htexts, -⟩ := Except.bind_eq_ok h
    exact anyHoldsLong_of_renderAll htexts
  | .map es, _, h => by
    obtain ⟨texts, htexts, -⟩ := Except.bind_eq_ok h
    exact anyEntryHoldsLong_of_renderEntries htexts
  | .named arguments, _, h => by
    obtain ⟨texts, htexts, -⟩ := Except.bind_eq_ok h
    exact anyArgumentHoldsLong_of_renderArguments htexts
  | .nil, _, h | .float _, _, h | .ratio _, _, h | .symbol .., _, h | .keyword _, _, h
  | .set _, _, h | .regex _, _, h | .tagged .., _, h | .splice _, _, h => nomatch h

theorem anyHoldsLong_of_renderAll : ∀ {ds : List Datum} {texts : List String},
    renderAll ds = .ok texts → anyHoldsLong ds = false
  | [], _, _ => rfl
  | d :: ds, _, h => by
    obtain ⟨text, htext, h⟩ := Except.bind_eq_ok h
    obtain ⟨texts, htexts, -⟩ := Except.bind_eq_ok h
    exact Bool.or_eq_false_iff.2 ⟨holdsLongInteger_of_render htext,
      anyHoldsLong_of_renderAll htexts⟩

theorem anyEntryHoldsLong_of_renderEntries : ∀ {es : List (Datum × Datum)} {texts : List String},
    renderEntries es = .ok texts → anyEntryHoldsLong es = false
  | [], _, _ => rfl
  | (k, v) :: es, _, h => by
    obtain ⟨key, hkey, h⟩ := Except.bind_eq_ok h
    obtain ⟨value, hvalue, h⟩ := Except.bind_eq_ok h
    obtain ⟨texts, htexts, -⟩ := Except.bind_eq_ok h
    exact Bool.or_eq_false_iff.2 ⟨Bool.or_eq_false_iff.2 ⟨holdsLongInteger_of_render hkey,
      holdsLongInteger_of_render hvalue⟩, anyEntryHoldsLong_of_renderEntries htexts⟩

theorem anyArgumentHoldsLong_of_renderArguments : ∀ {es : List (String × Datum)}
    {texts : List String}, renderArguments es = .ok texts → anyArgumentHoldsLong es = false
  | [], _, _ => rfl
  | (n, v) :: es, _, h => by
    obtain ⟨value, hvalue, h⟩ := Except.bind_eq_ok h
    obtain ⟨texts, htexts, -⟩ := Except.bind_eq_ok h
    exact Bool.or_eq_false_iff.2 ⟨holdsLongInteger_of_render hvalue,
      anyArgumentHoldsLong_of_renderArguments htexts⟩

end

/-! ## What is not rendered -/

/-- A fault of rendering: a datum has no expression, or, if one is held, an integer is too long. -/
inductive IsOfRendering (long : Bool) : Fault → Prop
  | unwritable (d : Datum) : IsOfRendering long (.unwritable d)
  | long : long = true → IsOfRendering long .longInteger

theorem IsOfRendering.mono {long long' : Bool} {e : Fault} (h : IsOfRendering long e)
    (hlong : long = true → long' = true) : IsOfRendering long' e := by
  cases h with
  | unwritable d => exact .unwritable d
  | long h => exact .long (hlong h)

/-- A datum without an expression is told of, which needs it to be written. -/
theorem isOfRendering_showing (d : Datum) :
    IsOfRendering d.holdsLongInteger (.showing d (.unwritable d)) := by
  rw [Fault.showing]
  split_ifs with hlong
  · exact .long hlong
  · exact .unwritable d

mutual

/-- Rendering stops for a datum that has no expression, or for a long integer that is held. -/
theorem isOfRendering_of_render : ∀ {d : Datum} {e : Fault}, d.render = .error e →
    IsOfRendering d.holdsLongInteger e
  | .bool _, _, h | .str _, _, h | .path _, _, h | .bare _, _, h => nomatch h
  | .int n, e, h => by
    rw [render, written] at h
    split at h
    · next hlong =>
      cases h
      exact .long hlong
    · cases h
  | .list xs, _, h | .vector xs, _, h | .call _ xs, _, h => by
    rcases Except.bind_eq_error h with h | ⟨_, _, h⟩
    · exact isOfRendering_of_renderAll h
    · cases h
  | .map es, _, h => by
    rcases Except.bind_eq_error h with h | ⟨_, _, h⟩
    · exact isOfRendering_of_renderEntries h
    · cases h
  | .named arguments, _, h => by
    rcases Except.bind_eq_error h with h | ⟨_, _, h⟩
    · exact isOfRendering_of_renderArguments h
    · cases h
  | .nil, _, h | .float _, _, h | .ratio _, _, h | .symbol .., _, h | .keyword _, _, h
  | .set _, _, h | .regex _, _, h | .tagged .., _, h | .splice _, _, h => by
    cases h
    exact isOfRendering_showing _

theorem isOfRendering_of_renderAll : ∀ {ds : List Datum} {e : Fault}, renderAll ds = .error e →
    IsOfRendering (anyHoldsLong ds) e
  | [], _, h => nomatch h
  | d :: ds, _, h => by
    rcases Except.bind_eq_error h with h | ⟨_, _, h⟩
    · exact (isOfRendering_of_render h).mono fun hd => Bool.or_eq_true_iff.2 (.inl hd)
    rcases Except.bind_eq_error h with h | ⟨_, _, h⟩
    · exact (isOfRendering_of_renderAll h).mono fun hds => Bool.or_eq_true_iff.2 (.inr hds)
    · cases h

theorem isOfRendering_of_renderEntries : ∀ {es : List (Datum × Datum)} {e : Fault},
    renderEntries es = .error e → IsOfRendering (anyEntryHoldsLong es) e
  | [], _, h => nomatch h
  | (k, v) :: es, _, h => by
    rcases Except.bind_eq_error h with h | ⟨_, _, h⟩
    · exact (isOfRendering_of_render h).mono fun hk =>
        Bool.or_eq_true_iff.2 (.inl (Bool.or_eq_true_iff.2 (.inl hk)))
    rcases Except.bind_eq_error h with h | ⟨_, _, h⟩
    · exact (isOfRendering_of_render h).mono fun hv =>
        Bool.or_eq_true_iff.2 (.inl (Bool.or_eq_true_iff.2 (.inr hv)))
    rcases Except.bind_eq_error h with h | ⟨_, _, h⟩
    · exact (isOfRendering_of_renderEntries h).mono fun hes => Bool.or_eq_true_iff.2 (.inr hes)
    · cases h

theorem isOfRendering_of_renderArguments : ∀ {es : List (String × Datum)} {e : Fault},
    renderArguments es = .error e → IsOfRendering (anyArgumentHoldsLong es) e
  | [], _, h => nomatch h
  | (n, v) :: es, _, h => by
    rcases Except.bind_eq_error h with h | ⟨_, _, h⟩
    · exact (isOfRendering_of_render h).mono fun hv => Bool.or_eq_true_iff.2 (.inl hv)
    rcases Except.bind_eq_error h with h | ⟨_, _, h⟩
    · exact (isOfRendering_of_renderArguments h).mono fun hes => Bool.or_eq_true_iff.2 (.inr hes)
    · cases h

end

end Datum

end BuildFiles
