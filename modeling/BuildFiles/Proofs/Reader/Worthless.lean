import BuildFiles.Proofs.Reader.Numeral
import BuildFiles.Proofs.Reader.Remainder
import Mathlib.Data.List.TakeWhile

/-!
# Values that stand for nothing

A text can be well formed and yet write something that there is not: digits that are none of their
base, a ratio over zero, the code of no character, a key that cannot be one. The literals of this
kind are those of `IsWorthless`, and they are what no lexeme is made of though nothing is malformed
(`scan_eq_worthless`). Besides them only the bracket that closes a set or a map can come to such a
value (`push_eq_worthless`). So a reading stops over one exactly if it `Stumbles`: if it comes to
such a literal or bracket, after steps that can be made (`advance_eq_worthless`). Of everything else
that a reading stops over the fault is that the text is malformed (`malformed_or_stumbles`).
-/

namespace BuildFiles.Reader

variable {features : List String} {cs rest tail t base digits num den : List Char}
  {frames : List Frame} {c r : Char} {e : ReadFault}

/-! ## Numbers -/

/-- A numeral without its sign that stands for nothing: its digits are too many, or they are not all
of the base that is written before them, or a ratio is one over zero. -/
inductive IsWorthlessNumeral : List Char → ReadFault → Prop
  | long {digits suffix : List Char} (hdigits : isNumeralOf 10 digits = true)
      (hzero : digits.head? ≠ some '0') (hlong : Text.longestNumeral < digits.length)
      (hs : suffix ∈ [[], ['N']]) : IsWorthlessNumeral (digits ++ suffix) .badDigits
  | radix {base digits : List Char} {r : Char} (hlength : base.length = 1 ∨ base.length = 2)
      (hbase : ∀ c ∈ base, c.isDigit = true) (hzero : base.head? ≠ some '0')
      (hr : r = 'r' ∨ r = 'R') (hdigits : isNumeralOf 36 digits = true)
      (hvalue : lenientInteger? (digitsValue 10 base) digits = none) :
      IsWorthlessNumeral (base ++ r :: digits) .badDigits
  | longRatio {num den : List Char} (hnum : isNumeralOf 10 num = true)
      (hden : isNumeralOf 10 den = true)
      (hlong : Text.longestNumeral < num.length ∨ Text.longestNumeral < den.length) :
      IsWorthlessNumeral (num ++ '/' :: den) .badDigits
  | ratio {num den : List Char} (hnum : isNumeralOf 10 num = true)
      (hden : isNumeralOf 10 den = true) (hnumLength : num.length ≤ Text.longestNumeral)
      (hdenLength : den.length ≤ Text.longestNumeral) (hzero : digitsValue 10 den = 0) :
      IsWorthlessNumeral (num ++ '/' :: den) .zeroDenominator

/-- A numeral has digits, and nothing else. -/
theorem isNumeralOf_iff {b : Nat} :
    isNumeralOf b cs = true ↔ cs ≠ [] ∧ ∀ c ∈ cs, isDigitOf b c = true := by
  rw [isNumeralOf, Bool.and_eq_true, Bool.not_eq_true', List.isEmpty_eq_false_iff, List.all_eq_true]

theorem isDigit_of_isDigitOf_ten (h : isDigitOf 10 c = true) : c.isDigit = true := by
  rw [isDigitOf, digitValue?] at h
  split_ifs at h with hdigit hlower hupper
  · exact hdigit
  · simp only [decide_eq_true_eq] at h
    omega
  · simp only [decide_eq_true_eq] at h
    omega

/-- A suffix is one character, so that one before others stays when it is dropped. -/
theorem mem_dropSuffix {mark : Char} (hrest : rest ≠ []) :
    c ∈ dropSuffix mark (cs ++ c :: rest) := by
  rw [dropSuffix]
  split_ifs
  · rw [List.dropLast_append_of_ne_nil (List.cons_ne_nil c rest),
      List.dropLast_cons_of_ne_nil hrest]
    exact List.mem_append_right _ List.mem_cons_self
  · exact List.mem_append_right _ List.mem_cons_self

/-- A character before the last that is no digit keeps a text from being a numeral. -/
theorem isNumeralOf_dropSuffix_eq_false {b : Nat} {mark : Char} (hc : isDigitOf b c = false)
    (hrest : rest ≠ []) : isNumeralOf b (dropSuffix mark (cs ++ c :: rest)) = false := by
  rw [← Bool.not_eq_true, isNumeralOf_iff]
  rintro ⟨-, hall⟩
  rw [hall c (mem_dropSuffix hrest)] at hc
  cases hc

/-- A base is read up to the first character that is no digit. -/
theorem takeWhile_isDigit_append (hbase : ∀ c ∈ base, c.isDigit = true) (hr : r.isDigit = false) :
    (base ++ r :: rest).takeWhile Char.isDigit = base ∧
      (base ++ r :: rest).dropWhile Char.isDigit = r :: rest := by
  constructor
  · rw [List.takeWhile_append_of_pos hbase, List.takeWhile_cons_of_neg (by simp [hr]),
      List.append_nil]
  · rw [List.dropWhile_append_of_pos hbase, List.dropWhile_cons_of_neg (by simp [hr])]

/-- After a base and an `r` the digits are read leniently, which is to say as the base has them; a
digit that is none in it stops the reading. -/
theorem integer?_radix (hlength : base.length = 1 ∨ base.length = 2)
    (hbase : ∀ c ∈ base, c.isDigit = true) (hzero : base.head? ≠ some '0')
    (hr : r = 'r' ∨ r = 'R') (hdigits : isNumeralOf 36 digits = true) :
    integer? (base ++ r :: digits) = match lenientInteger? (digitsValue 10 base) digits with
      | some n => some (.ok n)
      | none => some (.error .badDigits) := by
  have hrdigit : r.isDigit = false ∧ isDigitOf 10 r = false := by
    rcases hr with rfl | rfl <;> exact ⟨rfl, rfl⟩
  obtain ⟨htake, hdrop⟩ : (base ++ r :: digits).takeWhile Char.isDigit = base ∧
      (base ++ r :: digits).dropWhile Char.isDigit = r :: digits :=
    takeWhile_isDigit_append hbase hrdigit.1
  unfold integer?
  split
  · next rest hrest =>
    obtain ⟨c, base, rfl⟩ : ∃ c b, base = c :: b := List.exists_cons_of_ne_nil (by
      rintro rfl
      rcases hlength with h | h <;> cases h)
    exact absurd (congrArg some (List.cons.inj hrest).1) hzero
  · dsimp only
    have hmark : (r :: digits).head? = some 'r' ∨ (r :: digits).head? = some 'R' := by
      rcases hr with rfl | rfl
      · exact .inl rfl
      · exact .inr rfl
    rw [isNumeralOf_dropSuffix_eq_false hrdigit.2 (isNumeralOf_iff.1 hdigits).1,
      if_neg Bool.false_ne_true, htake, hdrop, if_pos ⟨hlength, hmark, hdigits⟩]
    rfl

/-- The mark at the end of an integer is dropped, and no digit is. -/
theorem dropSuffix_append {suffix : List Char} (h : 'N' ∉ cs) (hs : suffix ∈ [[], ['N']]) :
    dropSuffix 'N' (cs ++ suffix) = cs := by
  simp only [List.mem_cons, List.not_mem_nil, or_false] at hs
  rcases hs with rfl | rfl
  · rw [List.append_nil, dropSuffix_eq h]
  · rw [dropSuffix, if_pos (by simp), List.dropLast_concat]

/-- An integer is what is left without its suffix, and the suffix, if there is any. -/
theorem exists_append_dropSuffix (cs : List Char) :
    ∃ suffix ∈ [[], ['N']], dropSuffix 'N' cs ++ suffix = cs := by
  rw [dropSuffix]
  split_ifs with hlast
  · exact ⟨['N'], by simp, List.dropLast_append_getLast? 'N' hlast⟩
  · exact ⟨[], by simp, List.append_nil cs⟩

/-- Digits that do not start with a zero are a decimal integer, with or without the suffix; this is
also where too many of them stop the reading. -/
theorem integer?_decimal {suffix : List Char} (hdigits : isNumeralOf 10 digits = true)
    (hzero : digits.head? ≠ some '0') (hs : suffix ∈ [[], ['N']]) :
    integer? (digits ++ suffix) = some (decimalInteger digits) := by
  obtain ⟨hne, hall⟩ := isNumeralOf_iff.1 hdigits
  have hN : 'N' ∉ digits := fun hmem => by cases hall 'N' hmem
  unfold integer?
  split
  · next rest hrest =>
    obtain ⟨c, digits, rfl⟩ := List.exists_cons_of_ne_nil hne
    exact absurd (congrArg some (List.cons.inj hrest).1) hzero
  · rw [dropSuffix_append hN hs, if_pos hdigits]

/-- Decimal digits that stop the reading are too many. -/
theorem isWorthlessNumeral_of_decimalInteger
    (hdigits : isNumeralOf 10 (dropSuffix 'N' cs) = true) (hzero : cs.head? ≠ some '0')
    (h : decimalInteger (dropSuffix 'N' cs) = .error e) : IsWorthlessNumeral cs e := by
  obtain ⟨suffix, hs, hcs⟩ := exists_append_dropSuffix cs
  rcases Nat.lt_or_ge Text.longestNumeral (dropSuffix 'N' cs).length with hlong | hshort
  · rw [decimalInteger_of_lt hlong] at h
    cases h
    rw [← hcs]
    refine .long hdigits (fun hhead => hzero ?_) hlong hs
    obtain ⟨rest, hrest⟩ := List.head?_eq_some_iff.1 hhead
    rw [← hcs, hrest]
    rfl
  · rw [decimalInteger_of_le hshort] at h
    cases h

/-- Digits after a base that stop the reading have no value in it, or they are too many. -/
theorem isWorthlessNumeral_of_radix (hzero : cs.head? ≠ some '0')
    (hlength : (cs.takeWhile Char.isDigit).length = 1 ∨ (cs.takeWhile Char.isDigit).length = 2)
    (hr : (cs.dropWhile Char.isDigit).head? = some 'r' ∨
      (cs.dropWhile Char.isDigit).head? = some 'R')
    (hdigits : isNumeralOf 36 ((cs.dropWhile Char.isDigit).drop 1) = true)
    (hvalue : lenientInteger? (digitsValue 10 (cs.takeWhile Char.isDigit))
      ((cs.dropWhile Char.isDigit).drop 1) = none) : IsWorthlessNumeral cs .badDigits := by
  obtain ⟨r, digits, hdrop, hr⟩ :
      ∃ r digits, cs.dropWhile Char.isDigit = r :: digits ∧ (r = 'r' ∨ r = 'R') := by
    rcases hr with hr | hr
    · obtain ⟨digits, hdrop⟩ := List.head?_eq_some_iff.1 hr
      exact ⟨'r', digits, hdrop, .inl rfl⟩
    · obtain ⟨digits, hdrop⟩ := List.head?_eq_some_iff.1 hr
      exact ⟨'R', digits, hdrop, .inr rfl⟩
  rw [hdrop] at hdigits hvalue
  have hcs : cs = cs.takeWhile Char.isDigit ++ r :: digits := by
    rw [← hdrop, List.takeWhile_append_dropWhile]
  rw [hcs]
  refine .radix hlength (fun c hc => List.mem_takeWhile_imp hc) ?_ hr hdigits hvalue
  intro hhead
  obtain ⟨base, hbase⟩ := List.head?_eq_some_iff.1 hhead
  rw [hcs, hbase] at hzero
  exact hzero rfl

/-- An integer that stops the reading has one of the forms that are known to. -/
theorem isWorthlessNumeral_of_integer? (h : integer? cs = some (.error e)) :
    IsWorthlessNumeral cs e := by
  unfold integer? at h
  dsimp only at h
  split at h
  · split_ifs at h <;> cases h
  · next hzero =>
    have hzero : cs.head? ≠ some '0' := by
      intro hhead
      obtain ⟨rest, hrest⟩ := List.head?_eq_some_iff.1 hhead
      exact hzero rest hrest
    split_ifs at h with hplain hradix
    · exact isWorthlessNumeral_of_decimalInteger hplain hzero (Option.some.inj h)
    · obtain ⟨hlength, hr, hdigits⟩ := hradix
      split at h
      · cases h
      · next hvalue =>
        cases h
        exact isWorthlessNumeral_of_radix hzero hlength hr hdigits hvalue

/-- A ratio is no integer: the stroke is neither a digit nor the letter after a base, so that none
of the notations goes on to its end. -/
theorem integer?_ratio (hnum : isNumeralOf 10 num = true) (hden : isNumeralOf 10 den = true) :
    integer? (num ++ '/' :: den) = none := by
  obtain ⟨hne, hdigits⟩ := isNumeralOf_iff.1 hnum
  obtain ⟨hden, -⟩ := isNumeralOf_iff.1 hden
  unfold integer?
  split
  · next rest hrest =>
    -- an octal or hexadecimal numeral has no slash in it
    obtain ⟨c, num, rfl⟩ := List.exists_cons_of_ne_nil hne
    obtain rfl : num ++ '/' :: den = rest := (List.cons.inj hrest).2
    have hempty : (dropSuffix 'N' (num ++ '/' :: den)).isEmpty = false := by
      rw [List.isEmpty_eq_false_iff]
      exact List.ne_nil_of_mem (mem_dropSuffix hden)
    have hmark : ¬ ((num ++ '/' :: den).head? = some 'x' ∨
        (num ++ '/' :: den).head? = some 'X') := by
      cases num with
      | nil => rintro (h | h) <;> cases h
      | cons d num =>
        have hd := isDigit_of_isDigitOf_ten (hdigits d (List.mem_cons_of_mem c List.mem_cons_self))
        rintro (h | h) <;> cases h <;> cases hd
    dsimp only
    rw [hempty, if_neg Bool.false_ne_true, if_neg fun h => hmark h.1,
      isNumeralOf_dropSuffix_eq_false rfl hden, if_neg Bool.false_ne_true]
  · obtain ⟨htake, hdrop⟩ : (num ++ '/' :: den).takeWhile Char.isDigit = num ∧
        (num ++ '/' :: den).dropWhile Char.isDigit = '/' :: den :=
      takeWhile_isDigit_append (fun c hc => isDigit_of_isDigitOf_ten (hdigits c hc)) rfl
    dsimp only
    rw [isNumeralOf_dropSuffix_eq_false rfl hden, if_neg Bool.false_ne_true, htake, hdrop, if_neg]
    rintro ⟨-, h | h, -⟩ <;> cases h

/-- A ratio is no decimal either. -/
theorem decimal?_ratio (negative : Bool) (hnum : isNumeralOf 10 num = true)
    (hden : isNumeralOf 10 den = true) : decimal? negative (num ++ '/' :: den) = none := by
  obtain ⟨hne, hnum⟩ := isNumeralOf_iff.1 hnum
  obtain ⟨-, hden⟩ := isNumeralOf_iff.1 hden
  have hmark : 'M' ∉ num ++ '/' :: den := by
    intro hmem
    rcases List.mem_append.1 hmem with h | h
    · cases hnum _ h
    · rcases List.mem_cons.1 h with h | h
      · cases h
      · cases hden _ h
  obtain ⟨htake, hdrop⟩ : (num ++ '/' :: den).takeWhile Char.isDigit = num ∧
      (num ++ '/' :: den).dropWhile Char.isDigit = '/' :: den :=
    takeWhile_isDigit_append (fun c hc => isDigit_of_isDigitOf_ten (hnum c hc)) rfl
  rw [decimal?, dropSuffix_eq hmark, htake, hdrop]
  rw [List.isEmpty_eq_false_iff.2 hne]
  rfl

/-- Two numerals with a stroke between them are the ratio of the two. -/
theorem ratio?_eq_ratioOf (negative : Bool) (hnum : isNumeralOf 10 num = true)
    (hden : isNumeralOf 10 den = true) :
    ratio? negative (num ++ '/' :: den) = some (ratioOf negative num den) := by
  have hslash : '/' ∉ num := fun hmem => by cases (isNumeralOf_iff.1 hnum).2 _ hmem
  refine Option.bind_eq_some_iff.2 ⟨(num, den), Text.cut?_append hslash, ?_⟩
  refine Option.bind_eq_some_iff.2 ⟨(), ?_, rfl⟩
  rw [hnum, hden]
  rfl

/-- A ratio fails over too many digits, of which there may be some on either side, or over zero. -/
theorem ratioOf_eq_error {negative : Bool} : ratioOf negative num den = .error e ↔
    e = .badDigits ∧ (Text.longestNumeral < num.length ∨ Text.longestNumeral < den.length) ∨
      e = .zeroDenominator ∧ num.length ≤ Text.longestNumeral ∧
        den.length ≤ Text.longestNumeral ∧ digitsValue 10 den = 0 := by
  rw [ratioOf]
  rcases Nat.lt_or_ge Text.longestNumeral num.length with hnum | hnum
  · rw [decimalInteger_of_lt hnum]
    simp [bind, Except.bind, hnum, Nat.not_le.2 hnum, eq_comm]
  · rw [decimalInteger_of_le hnum]
    rcases Nat.lt_or_ge Text.longestNumeral den.length with hden | hden
    · rw [decimalInteger_of_lt hden]
      simp [bind, Except.bind, hden, Nat.not_le.2 hden, eq_comm]
    · rw [decimalInteger_of_le hden]
      by_cases hzero : digitsValue 10 den = 0
      · simp [bind, Except.bind, hnum, hden, Nat.not_lt.2 hnum, Nat.not_lt.2 hden, hzero, eq_comm]
      · simp [bind, Except.bind, Nat.not_lt.2 hnum, Nat.not_lt.2 hden, hzero]

/-- A ratio that stops the reading has a zero below the stroke, or too many digits. -/
theorem isWorthlessNumeral_of_ratio? {negative : Bool}
    (h : ratio? negative cs = some (.error e)) : IsWorthlessNumeral cs e := by
  obtain ⟨⟨num, den⟩, hcut, hrest⟩ := Option.bind_eq_some_iff.1 h
  obtain ⟨_, hguard, hvalue⟩ := Option.bind_eq_some_iff.1 hrest
  obtain ⟨rfl, -⟩ := Text.cut?_eq_some hcut
  have hboth : (isNumeralOf 10 num && isNumeralOf 10 den) = true := by
    simpa [guard] using hguard
  obtain ⟨hnum, hden⟩ := Bool.and_eq_true_iff.1 hboth
  rcases ratioOf_eq_error.1 (Option.some.inj hvalue) with
    ⟨rfl, hlong⟩ | ⟨rfl, hnumLength, hdenLength, hzero⟩
  · exact .longRatio hnum hden hlong
  · exact .ratio hnum hden hnumLength hdenLength hzero

/-- Two numerals about a slash are a ratio, and no other number. -/
theorem number?_ratio {negative : Bool} (hsign : splitSign t = (negative, num ++ '/' :: den))
    (hnum : isNumeralOf 10 num = true) (hden : isNumeralOf 10 den = true) :
    number? t = some ((ratioOf negative num den).map .ratio) := by
  rw [number?, hsign]
  simp only [integer?_ratio hnum hden, decimal?_ratio negative hnum hden,
    ratio?_eq_ratioOf negative hnum hden]
  rfl

/-- The sign of an integer does not matter to whether it can be read. -/
theorem number?_of_integer?_error {negative : Bool} {body : List Char}
    (hsign : splitSign t = (negative, body)) (h : integer? body = some (.error e)) :
    number? t = some (.error e) := by
  rw [number?, hsign]
  simp only [h]

/-- A worthless numeral stops the reading, whatever its sign. -/
theorem number?_of_isWorthlessNumeral {negative : Bool} {body : List Char}
    (h : IsWorthlessNumeral body e) (hsign : splitSign t = (negative, body)) :
    number? t = some (.error e) := by
  cases h with
  | long hdigits hzero hlong hs =>
    refine number?_of_integer?_error hsign ?_
    rw [integer?_decimal hdigits hzero hs, decimalInteger_of_lt hlong]
  | radix hlength hbase hzero hr hdigits hvalue =>
    refine number?_of_integer?_error hsign ?_
    simp only [integer?_radix hlength hbase hzero hr hdigits, hvalue]
  | longRatio hnum hden hlong =>
    rw [number?_ratio hsign hnum hden, ratioOf_eq_error.2 (.inl ⟨rfl, hlong⟩)]
    rfl
  | ratio hnum hden hnumLength hdenLength hzero =>
    rw [number?_ratio hsign hnum hden,
      ratioOf_eq_error.2 (.inr ⟨rfl, hnumLength, hdenLength, hzero⟩)]
    rfl

/-- A token that looks like a number and stands for none. -/
theorem number?_eq_error : number? t = some (.error e) ↔ IsWorthlessNumeral (splitSign t).2 e := by
  refine ⟨fun h => ?_, fun h => number?_of_isWorthlessNumeral h rfl⟩
  rw [number?] at h
  dsimp only at h
  split at h
  · cases h
  · next e' he =>
    cases h
    exact isWorthlessNumeral_of_integer? he
  · split at h
    · cases h
    · obtain ⟨q, hq, hfault⟩ := Option.map_eq_some_iff.1 h
      cases q with
      | ok q => cases hfault
      | error e' =>
        cases hfault
        exact isWorthlessNumeral_of_ratio? hq

/-! ## Text and characters -/

/-- The text after an opening quote goes up to a code that is none of a character. -/
inductive BreaksOff : List Char → ReadFault → Prop
  | code {a b c d : Char} {cs : List Char} {e : ReadFault}
      (h : characterIn 16 [a, b, c, d] = .error e) :
      BreaksOff ('\\' :: 'u' :: a :: b :: c :: d :: cs) e
  | afterCode {a b c d x : Char} {cs : List Char} {e : ReadFault}
      (hx : characterIn 16 [a, b, c, d] = .ok x) (h : BreaksOff cs e) :
      BreaksOff ('\\' :: 'u' :: a :: b :: c :: d :: cs) e
  | afterEscape {x y : Char} {cs : List Char} {e : ReadFault} (hx : stringEscape? x = some y)
      (h : BreaksOff cs e) : BreaksOff ('\\' :: x :: cs) e
  | afterCharacter {x : Char} {cs : List Char} {e : ReadFault} (hquote : x ≠ '"')
      (hescape : x ≠ '\\') (h : BreaksOff cs e) : BreaksOff (x :: cs) e

theorem map_eq_error {ε α β : Type} {f : α → β} {x : Except ε α} {e : ε} :
    x.map f = .error e ↔ x = .error e := by
  cases x with
  | error e' => exact Iff.of_eq (by rw [Except.map, Except.error.injEq, Except.error.injEq])
  | ok a => exact iff_of_false (by rintro ⟨⟩) (by rintro ⟨⟩)

/-- A text stops the reading at an escape that has no character, after a beginning that has. -/
theorem breaksOff_of_stringBody {start : List Char}
    (h : stringBody start cs = .error (.worthless e)) : BreaksOff cs e := by
  fun_induction stringBody start cs with
  | case1 => cases h
  | case2 => cases h
  | case3 => cases h
  | case4 a b c d cs e' he =>
    cases h
    exact .code he
  | case5 a b c d cs x hx ih => exact .afterCode hx (ih (map_eq_error.1 h))
  | case6 => cases h
  | case7 x cs h₁ h₂ y hy ih => exact .afterEscape hy (ih (map_eq_error.1 h))
  | case8 => cases h
  | case9 c cs hquote hlast _ _ hescape ih =>
    refine .afterCharacter hquote ?_ (ih (map_eq_error.1 h))
    rintro rfl
    cases cs with
    | nil => exact hlast rfl rfl
    | cons x cs => exact hescape x cs rfl rfl

/-- Such an escape does stop it, wherever the text started. -/
theorem stringBody_of_breaksOff (h : BreaksOff cs e) (start : List Char) :
    stringBody start cs = .error (.worthless e) := by
  induction h with
  | code h => rw [stringBody, h]
  | afterCode hx h ih => 
    rw [stringBody, hx]
    exact map_eq_error.2 ih
  | afterEscape hx h ih => 
    rw [stringBody_escape hx]
    exact map_eq_error.2 ih
  | afterCharacter hquote hescape h ih =>
    rw [stringBody_cons hquote hescape]
    exact map_eq_error.2 ih

/-- The names of characters start with one of six letters. -/
theorem namedCharacter?_eq_none {name : String}
    (h : ∀ c ∈ name.toList.head?, c ∉ ['n', 's', 't', 'b', 'f', 'r']) :
    namedCharacter? name = none := by
  rw [namedCharacter?, List.lookup_eq_none_iff]
  intro entry hentry
  rw [bne_iff_ne]
  rintro rfl
  simp only [List.mem_cons, List.not_mem_nil, or_false] at hentry
  rcases hentry with rfl | rfl | rfl | rfl | rfl | rfl
  · exact h 'n' (by decide) (by decide)
  · exact h 's' (by decide) (by decide)
  · exact h 't' (by decide) (by decide)
  · exact h 'b' (by decide) (by decide)
  · exact h 'f' (by decide) (by decide)
  · exact h 'r' (by decide) (by decide)

/-- A token after a backslash stops the reading just if it is a code and none of a character; the
names of characters and single characters are tried first. -/
theorem character_eq_worthless : character t rest = .error (.worthless e) ↔
    (∃ digits, t = 'u' :: digits ∧ digits.length = 4 ∧ characterIn 16 digits = .error e) ∨
      ∃ digits, t = 'o' :: digits ∧ digits ≠ [] ∧ characterIn 8 digits = .error e := by
  constructor
  · intro h
    unfold character at h
    dsimp only at h
    split at h
    · cases h
    · next first digits hone =>
      split at h
      · cases h
      · split_ifs at h with hu ho
        · split at h <;> cases h
          next he => exact .inl ⟨digits, by rw [hu.1], hu.2, he⟩
        · split at h <;> cases h
          next he =>
            refine .inr ⟨digits, by rw [ho], ?_, he⟩
            rintro rfl
            exact hone rfl
        · cases h
    · cases h
  · have hnamed : ∀ c (digits : List Char), c ∉ ['n', 's', 't', 'b', 'f', 'r'] →
        namedCharacter? (String.ofList (c :: digits)) = none := by
      intro c digits hc
      refine namedCharacter?_eq_none fun c' hc' => ?_
      rw [String.toList_ofList] at hc'
      obtain rfl : c = c' := Option.some.inj hc'
      exact hc
    rintro (⟨digits, rfl, hlength, he⟩ | ⟨digits, rfl, hne, he⟩)
    · have hne : digits ≠ [] := by
        rintro rfl
        cases hlength
      rw [character, hnamed 'u' _ (by decide)]
      · dsimp only
        rw [if_pos ⟨rfl, hlength⟩, he]
      · exact hne
    · rw [character, hnamed 'o' _ (by decide)]
      · dsimp only
        rw [if_neg (by simp), if_pos rfl, he]
      · exact hne

/-! ## Literals -/

/-- The text starts with a literal that stands for nothing: a text between quotes or a character
with a code that is none of a character, or a number. -/
inductive IsWorthless : List Char → ReadFault → Prop
  | text {cs : List Char} {e : ReadFault} (h : BreaksOff cs e) : IsWorthless ('"' :: cs) e
  | hexadecimal {cs : List Char} {e : ReadFault} (hlength : (token cs).length = 4)
      (h : characterIn 16 (token cs) = .error e) : IsWorthless ('\\' :: 'u' :: cs) e
  | octal {cs : List Char} {e : ReadFault} (hne : token cs ≠ [])
      (h : characterIn 8 (token cs) = .error e) : IsWorthless ('\\' :: 'o' :: cs) e
  | number {cs : List Char} {e : ReadFault} (h : IsWorthlessNumeral (splitSign (token cs)).2 e) :
      IsWorthless cs e

/-- A numeral with something after it starts with a digit. -/
theorem exists_digit_append (h : isNumeralOf 10 cs = true) (rest : List Char) :
    ∃ c more, cs ++ rest = c :: more ∧ c.isDigit = true := by
  obtain ⟨hne, hdigits⟩ := isNumeralOf_iff.1 h
  obtain ⟨c, more, rfl⟩ := List.exists_cons_of_ne_nil hne
  exact ⟨c, more ++ rest, rfl, isDigit_of_isDigitOf_ten (hdigits c List.mem_cons_self)⟩

/-- A worthless numeral starts with a digit, also in another base. -/
theorem exists_digit (h : IsWorthlessNumeral cs e) :
    ∃ c rest, cs = c :: rest ∧ c.isDigit = true := by
  cases h with
  | long hdigits hzero hlong hs => exact exists_digit_append hdigits _
  | @radix base digits r hlength hbase hzero hr hdigits hvalue =>
    obtain ⟨c, more, rfl⟩ := List.exists_cons_of_ne_nil (l := base) (by
      rintro rfl
      rcases hlength with h | h <;> cases h)
    exact ⟨c, _, rfl, hbase c List.mem_cons_self⟩
  | longRatio hnum hden hlong => exact exists_digit_append hnum _
  | ratio hnum hden hnumLength hdenLength hzero => exact exists_digit_append hnum _

/-- Such a number starts with a digit or a sign before one. -/
theorem startsNumber_of_isWorthlessNumeral (h : IsWorthlessNumeral (splitSign t).2 e) :
    startsNumber t = true ∧ ∃ c rest, t = c :: rest ∧ (c.isDigit = true ∨ c = '-' ∨ c = '+') := by
  obtain ⟨d, rest, hbody, hd⟩ := exists_digit h
  have hdigit : Text.isDigit d = true := by rw [Text.isDigit, hd, Bool.true_or]
  unfold splitSign at hbody
  split at hbody
  · obtain rfl : _ = d :: rest := hbody
    exact ⟨by simp [startsNumber, hdigit], _, _, rfl, .inr (.inl rfl)⟩
  · obtain rfl : _ = d :: rest := hbody
    exact ⟨by simp [startsNumber, hdigit], _, _, rfl, .inr (.inr rfl)⟩
  · obtain rfl : _ = d :: rest := hbody
    exact ⟨startsNumber_of_isDigit hd rest, _, _, rfl, .inl hd⟩

/-- What starts a number starts nothing else. -/
theorem not_mem_marks_of_number (h : c.isDigit = true ∨ c = '-' ∨ c = '+') : c ∉ marks := by
  rintro hmem
  simp only [marks, List.mem_cons, List.not_mem_nil, or_false] at hmem
  rcases h with h | rfl | rfl
  · rcases hmem with rfl | rfl | rfl | rfl | rfl | rfl | rfl | rfl | rfl | rfl | rfl | rfl | rfl |
      rfl | rfl <;> cases h
  · simp at hmem
  · simp at hmem

/-- What starts with a mark is no number. -/
theorem not_isWorthlessNumeral_of_mark (hc : c ∈ marks) :
    ¬ IsWorthlessNumeral (splitSign (token (c :: cs))).2 e := by
  intro h
  obtain ⟨-, d, rest, htoken, hd⟩ := startsNumber_of_isWorthlessNumeral h
  obtain rfl : c = d := by
    rw [token] at htoken
    by_cases hletter : isTokenChar c = true
    · rw [List.takeWhile_cons_of_pos hletter] at htoken
      exact (List.cons.inj htoken).1
    · rw [List.takeWhile_cons_of_neg hletter] at htoken
      cases htoken
  exact not_mem_marks_of_number hd hc

/-- A literal of a character stops the reading just if it is worthless: what comes after the
backslash is a token, unless it is a single delimiter. -/
theorem scanCharacter_eq_worthless :
    scanCharacter cs = .error (.worthless e) ↔ IsWorthless ('\\' :: cs) e := by
  have hnumber : ∀ cs, ¬ IsWorthlessNumeral (splitSign (token ('\\' :: cs))).2 e :=
    fun cs => not_isWorthlessNumeral_of_mark (by decide)
  cases cs with
  | nil =>
    refine iff_of_false (by rintro ⟨⟩) fun h => ?_
    cases h with
    | number h => exact hnumber [] h
  | cons c cs =>
    have hscan : scanCharacter (c :: cs) = .error (.worthless e) ↔
        character (c :: token cs) (afterToken cs) = .error (.worthless e) := by
      rw [scanCharacter]
      split
      · next x hx => simp [hx]
      · next stop hstop => simp [hstop]
    rw [hscan, character_eq_worthless]
    constructor
    · rintro (⟨digits, ht, hlength, he⟩ | ⟨digits, ht, hne, he⟩)
      · obtain ⟨rfl, rfl⟩ := List.cons.inj ht
        exact .hexadecimal hlength he
      · obtain ⟨rfl, rfl⟩ := List.cons.inj ht
        exact .octal hne he
    · intro h
      cases h with
      | hexadecimal hlength he => exact .inl ⟨token cs, rfl, hlength, he⟩
      | octal hne he => exact .inr ⟨token cs, rfl, hne, he⟩
      | number h => exact (hnumber _ h).elim

/-- Patterns are not looked into, so none is worthless. -/
theorem regexBody_ne_worthless (cs : List Char) : regexBody cs ≠ .error (.worthless e) := by
  fun_induction regexBody cs with
  | case1 => rintro ⟨⟩
  | case2 cs => rintro ⟨⟩
  | case3 => rintro ⟨⟩
  | case4 c cs ih => exact fun h => ih (map_eq_error.1 h)
  | case5 c cs h₁ h₂ h₃ ih => exact fun h => ih (map_eq_error.1 h)

/-- What starts with the number sign is never worthless: its values have names. -/
theorem scanDispatch_ne_worthless (cs : List Char) : scanDispatch cs ≠ .error (.worthless e) := by
  intro h
  unfold scanDispatch at h
  split at h
  case h_3 cs => exact regexBody_ne_worthless cs (map_eq_error.1 h)
  case h_6 cs =>
    unfold scanConditional at h
    dsimp only at h
    split at h <;> cases h
  case h_7 cs =>
    unfold scanSymbolicValue at h
    dsimp only at h
    split_ifs at h
    cases h
  case h_8 cs =>
    unfold scanQualifying at h
    split at h <;> cases h
  all_goals cases h

/-- Of the tokens only numerals are worthless, since a constant or a symbol has always a value. -/
theorem atomOf_eq_worthless :
    atomOf t rest = .error (.worthless e) ↔ IsWorthlessNumeral (splitSign t).2 e := by
  constructor
  · intro h
    unfold atomOf at h
    split_ifs at h
    · cases h
    · split at h <;> cases h
      next he => exact number?_eq_error.1 he
  · intro h
    obtain ⟨hstart, c, more, rfl, hc⟩ := startsNumber_of_isWorthlessNumeral h
    have hletter : ∀ c' s, c'.isDigit = false → c' ≠ '-' → c' ≠ '+' → c :: more ≠ c' :: s := by
      rintro c' s hdigit hminus hplus heq
      obtain rfl := (List.cons.inj heq).1
      rcases hc with hc | hc | hc
      · rw [hdigit] at hc
        cases hc
      · exact hminus hc
      · exact hplus hc
    rw [atomOf, if_neg (by simp), if_neg (hletter 'n' _ rfl (by decide) (by decide)),
      if_neg (hletter 't' _ rfl (by decide) (by decide)),
      if_neg (hletter 'f' _ rfl (by decide) (by decide)), if_pos hstart, number?_eq_error.2 h]

/-- Of the marks only the quote and the one of a character start such a literal. -/
theorem scan_ne_worthless_of_mark (hc : c ∈ marks) (hquote : c ≠ '"') (hescape : c ≠ '\\') :
    scan c cs ≠ .error (.worthless e) := by
  intro h
  unfold scan at h
  split at h
  case h_7 => exact hquote rfl
  case h_8 => exact hescape rfl
  case h_9 =>
    unfold scanKeyword at h
    split at h <;> cases h
  case h_12 => split at h <;> cases h
  case h_15 => exact scanDispatch_ne_worthless cs h
  case h_16 => simp_all [marks]
  all_goals cases h

/-- Where there is no mark, such a literal is a number. -/
theorem isWorthless_of_not_mem (hc : c ∉ marks) : IsWorthless (c :: cs) e ↔
    atomOf (token (c :: cs)) (afterToken (c :: cs)) = .error (.worthless e) := by
  rw [atomOf_eq_worthless]
  refine ⟨fun h => ?_, .number⟩
  cases h with
  | text h => exact absurd (by decide) hc
  | hexadecimal hlength h => exact absurd (by decide) hc
  | octal hne h => exact absurd (by decide) hc
  | number h => exact h

/-- What no lexeme is made of, though it is well formed, is a literal that stands for nothing. -/
theorem scan_eq_worthless : scan c cs = .error (.worthless e) ↔ IsWorthless (c :: cs) e := by
  by_cases hc : c ∈ marks
  · have hnumber : ¬ IsWorthlessNumeral (splitSign (token (c :: cs))).2 e :=
      not_isWorthlessNumeral_of_mark hc
    by_cases hquote : c = '"'
    · subst hquote
      change (stringBody cs cs).map _ = _ ↔ _
      rw [map_eq_error]
      constructor
      · exact fun h => .text (breaksOff_of_stringBody h)
      · intro h
        cases h with
        | text h => exact stringBody_of_breaksOff h cs
        | number h => exact (hnumber h).elim
    · by_cases hescape : c = '\\'
      · subst hescape
        exact scanCharacter_eq_worthless
      · refine iff_of_false (scan_ne_worthless_of_mark hc hquote hescape) fun h => ?_
        cases h with
        | text h => exact hquote rfl
        | hexadecimal hlength h => exact hescape rfl
        | octal hne h => exact hescape rfl
        | number h => exact hnumber h
  · rw [scan_of_not_mem hc, isWorthless_of_not_mem hc]
    split
    · next d hd => simp [hd]
    · next stop hstop => simp [hstop]

/-! ## Keys -/

/-- The bracket makes one of the items a key, and it cannot be one. -/
def HasBadKey : Bracket → List Datum → Prop
  | .set, items => ∃ d ∈ items, d.frozen.keyable = false
  | .curly, items | .qualifying _, items =>
    items.length % 2 = 0 ∧ ∃ entry ∈ pairs items, entry.1.frozen.keyable = false
  | _, _ => False

/-- A set is refused just if some element cannot be a key. -/
theorem setOf_eq_worthless {items : List Datum} : setOf items = .error (.worthless e) ↔
    e = .unkeyable ∧ ∃ d ∈ items, d.frozen.keyable = false := by
  have hall : (items.map Datum.frozen).all Datum.keyable = false ↔
      ∃ d ∈ items, d.frozen.keyable = false := by
    simp
  rw [← hall, setOf, Datum.elementsOf?]
  cases (items.map Datum.frozen).all Datum.keyable with
  | true => simp
  | false => simp [eq_comm]

/-- Entries are refused just if some key cannot be one. -/
theorem entriesOf?_eq_none {es : List (Datum × Datum)} :
    Datum.entriesOf? es = none ↔ ∃ entry ∈ es, entry.1.keyable = false := by
  simp [Datum.entriesOf?]

/-- A map is refused just if its forms pair up and the first of some pair cannot be a key; forms
that do not pair up are another fault. -/
theorem mapOf_eq_worthless {items : List Datum} : mapOf items rest = .error (.worthless e) ↔
    e = .unkeyable ∧ items.length % 2 = 0 ∧
      ∃ entry ∈ pairs items, entry.1.frozen.keyable = false := by
  rw [mapOf]
  by_cases hodd : items.length % 2 = 1
  · rw [if_pos hodd]
    refine iff_of_false (by rintro ⟨⟩) ?_
    rintro ⟨-, heven, -⟩
    omega
  · have heven : items.length % 2 = 0 := by omega
    rw [if_neg hodd]
    split
    · next entries hentries =>
      refine iff_of_false (by rintro ⟨⟩) ?_
      rintro ⟨-, -, entry, hentry, hbad⟩
      rw [entriesOf?_eq_none.2 ⟨_, List.mem_map_of_mem hentry, hbad⟩] at hentries
      cases hentries
    · next hnone =>
      obtain ⟨_, hmem, hbad⟩ := entriesOf?_eq_none.1 hnone
      obtain ⟨entry, hentry, rfl⟩ := List.mem_map.1 hmem
      constructor
      · rintro ⟨⟩
        exact ⟨rfl, heven, entry, hentry, hbad⟩
      · rintro ⟨rfl, -⟩
        rfl

/-- A conditional is never refused for what its branches hold. -/
theorem select_ne_worthless {splicing : Bool} {branches : List (Datum × Datum)} :
    select features splicing rest branches ≠ .error (.worthless e) := by
  induction branches with
  | nil => rintro ⟨⟩
  | cons branch branches ih =>
    obtain ⟨feature, form⟩ := branch
    intro h
    rw [select] at h
    split at h
    · cases h
    · split_ifs at h
      · split at h <;> cases h
      · exact ih h

/-- A bracket is refused, when it closes, for its keys and for nothing else. -/
theorem closed_eq_worthless {b : Bracket} {items : List Datum} :
    closed features b items rest = .error (.worthless e) ↔ e = .unkeyable ∧ HasBadKey b items := by
  cases b with
  | round => exact iff_of_false (by rintro ⟨⟩) fun h => h.2
  | square => exact iff_of_false (by rintro ⟨⟩) fun h => h.2
  | function => exact iff_of_false (by rintro ⟨⟩) fun h => h.2
  | curly => rw [closed, map_eq_error, mapOf_eq_worthless, HasBadKey]
  | set => rw [closed, map_eq_error, setOf_eq_worthless, HasBadKey]
  | qualifying space => rw [closed, map_eq_error, mapOf_eq_worthless, HasBadKey]
  | conditional splicing =>
    refine iff_of_false ?_ fun h => h.2
    rw [closed]
    split_ifs
    · rintro ⟨⟩
    · exact select_ne_worthless

/-- Handing a form over refuses nothing; only closing a bracket does. -/
theorem deliver_ne_worthless {item : Item} : deliver rest item frames ≠ .error (.worthless e) := by
  fun_induction deliver rest item frames with
  | case6 item head frames hne ih => exact ih
  | case8 item metadata frames hne result hattach ih => exact ih
  | case9 item metadata frames hne stop hattach =>
    rintro ⟨⟩
    unfold attach at hattach
    split at hattach
    · cases hattach
    · split at hattach <;> cases hattach
  | case13 item n attached frames hne ih => exact ih
  | _ => rintro ⟨⟩

/-- The lexeme closes a bracket that holds a key that cannot be one. -/
def ClosesBadKey (x : Lexeme) (frames : List Frame) : Prop :=
  ∃ b opened items outer, x = .closing b.closer ∧
    frames = .collecting b opened items :: outer ∧ HasBadKey b items.reverse

/-- The bracket that is refused is the innermost one, if the delimiter is its own. -/
theorem closesBadKey_closing {delimiter : Char} {b : Bracket} {opened : List Char}
    {items : List Datum} {outer : List Frame} :
    ClosesBadKey (.closing delimiter) (.collecting b opened items :: outer) ↔
      b.closer = delimiter ∧ HasBadKey b items.reverse := by
  constructor
  · rintro ⟨b', opened', items', outer', hx, hframes, hbad⟩
    cases hframes
    cases hx
    exact ⟨rfl, hbad⟩
  · rintro ⟨rfl, hbad⟩
    exact ⟨b, opened, items, outer, rfl, rfl, hbad⟩

/-- A delimiter stops the reading just if it closes a bracket with a bad key. -/
theorem close_eq_worthless {delimiter : Char} :
    close features delimiter rest frames = .error (.worthless e) ↔
      e = .unkeyable ∧ ClosesBadKey (.closing delimiter) frames := by
  unfold close
  split
  · next b opened items outer =>
    rw [closesBadKey_closing]
    split_ifs with hcloser
    · have hclosed : closed features b items.reverse rest = .error (.worthless e) ↔ _ :=
        closed_eq_worthless
      rw [and_iff_right hcloser, ← hclosed]
      split
      · next item hitem => simp [hitem, deliver_ne_worthless]
      · next stop hstop => simp [hstop]
    · exact iff_of_false (by rintro ⟨⟩) fun h => hcloser h.2.1
  · next hne =>
    refine iff_of_false (by rintro ⟨⟩) ?_
    rintro ⟨-, b, opened, items, outer, -, hframes, -⟩
    exact hne b opened items outer hframes

/-- A lexeme stops the reading just if it closes a bracket with a bad key; no other lexeme does. -/
theorem push_eq_worthless {x : Lexeme} : push features rest frames x = .error (.worthless e) ↔
    e = .unkeyable ∧ ClosesBadKey x frames := by
  cases x with
  | atom d =>
    refine iff_of_false deliver_ne_worthless ?_
    rintro ⟨-, b, opened, items, outer, hx, -⟩
    cases hx
  | closing delimiter => exact close_eq_worthless
  | _ =>
    refine iff_of_false (by rintro ⟨⟩) ?_
    rintro ⟨-, b, opened, items, outer, hx, -⟩
    cases hx

/-! ## Whole readings -/

/-- The reading of a first form comes to a literal that stands for nothing or to a key that cannot
be one, after steps that can be made. -/
inductive Stumbles (features : List String) : List Frame → List Char → ReadFault → Prop
  | literal {frames : List Frame} {cs : List Char} {e : ReadFault}
      (h : IsWorthless (skipBlank cs) e) : Stumbles features frames cs e
  | key {frames : List Frame} {cs tail rest : List Char} {c : Char} {x : Lexeme}
      (hskip : skipBlank cs = c :: tail) (hscan : scan c tail = .ok (x, rest))
      (h : ClosesBadKey x frames) : Stumbles features frames cs .unkeyable
  | step {frames frames' : List Frame} {cs tail rest : List Char} {c : Char} {x : Lexeme}
      {e : ReadFault} (hskip : skipBlank cs = c :: tail) (hscan : scan c tail = .ok (x, rest))
      (hpush : push features rest frames x = .ok (.pending frames'))
      (h : Stumbles features frames' rest e) : Stumbles features frames cs e

theorem not_isWorthless_nil : ¬ IsWorthless [] e := by
  intro h
  cases h with
  | number h =>
    obtain ⟨-, c, rest, hcs, -⟩ := startsNumber_of_isWorthlessNumeral h
    cases hcs

/-- A reading that stumbles stops, at the step where it does. -/
theorem advance_of_stumbles (h : Stumbles features frames cs e) :
    advance features frames cs = .error (.worthless e) := by
  induction h with
  | @literal frames cs e h =>
    rcases hskip : skipBlank cs with _ | ⟨c, tail⟩
    · rw [hskip] at h
      exact (not_isWorthless_nil h).elim
    · rw [hskip] at h
      exact advance_of_scan_error hskip (scan_eq_worthless.2 h)
  | key hskip hscan h =>
    rw [advance_of_scan hskip hscan, push_eq_worthless.2 ⟨rfl, h⟩]
    rfl
  | step hskip hscan hpush h ih =>
    rw [advance_of_scan hskip hscan, hpush]
    exact ih

/-- The other way round, a reading that stops over a value has stumbled there. -/
theorem stumbles_of_advance (h : advance features frames cs = .error (.worthless e)) :
    Stumbles features frames cs e := by
  fun_induction advance features frames cs with
  | case1 frames cs hskip stop hend =>
    cases h
    cases frames with
    | nil => cases hend
    | cons f frames => cases f <;> cases hend
  | case2 => cases h
  | case3 frames cs c tail hskip stop hscan =>
    cases h
    refine .literal ?_
    rw [hskip]
    exact scan_eq_worthless.1 hscan
  | case4 frames cs c tail hskip x rest hscan stop hpush =>
    cases h
    obtain ⟨rfl, hbad⟩ := push_eq_worthless.1 hpush
    exact .key hskip hscan hbad
  | case5 => cases h
  | case6 frames cs c tail hskip x rest hscan frames' hpush ih =>
    exact .step hskip hscan hpush (ih h)

/-- A reading is stopped by a value that stands for nothing exactly if it stumbles over one. -/
theorem advance_eq_worthless :
    advance features frames cs = .error (.worthless e) ↔ Stumbles features frames cs e :=
  ⟨stumbles_of_advance, advance_of_stumbles⟩

/-- The first form of a text that stumbles is the fault. -/
theorem first_of_stumbles {text : String} (h : Stumbles features [] text.toList e) :
    first text features = .error e := by
  rw [first, advance_of_stumbles h]
  rfl

/-- A value is refused without a line, since it is refused by what makes it and not by the
reader. -/
theorem Stumbles.isLineless {text : String} (h : Stumbles features [] text.toList e) :
    e.IsLineless :=
  advance_within (List.suffix_refl text.toList) (by simp) (advance_of_stumbles h)

/-- A text that cannot be read breaks the grammar of forms, or the reading stumbles. -/
theorem malformed_or_stumbles {text : String} (h : first text features = .error e) :
    (∃ cause line, e = .malformed cause line) ∨ Stumbles features [] text.toList e := by
  rw [first] at h
  split at h
  · cases h
  · cases h
  · next stop hstop =>
    cases h
    cases stop with
    | malformed cause rest => exact .inl ⟨cause, _, rfl⟩
    | worthless e => exact .inr (stumbles_of_advance hstop)

end BuildFiles.Reader
