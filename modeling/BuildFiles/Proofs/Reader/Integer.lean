import BuildFiles.Proofs.Reader.Spelling
import BuildFiles.Proofs.Reader.Worthless

/-!
# Notations of integers

What a whole number can be written as is said by `IsInteger`, through the value of a row of digits:
decimal, octal, hexadecimal and with an `N` after these, or in any base up to 36 after that base. A
digit from ten on is a letter of either case, and but for decimal numerals zeros may stand before
the number. Each of these texts, with or without a sign, is read as the number that it writes unless
its digits are overlong, and then it is not read at all: `first_of_isInteger`.
-/

namespace BuildFiles.Reader

/-! ## The notations -/

/-- The characters that a digit is written as: a numeral up to nine, and from ten on a letter of
either case. -/
def digitChars (d : Nat) : List Char :=
  if d < 10 then [Char.ofNat ('0'.toNat + d)]
  else [Char.ofNat ('a'.toNat + (d - 10)), Char.ofNat ('A'.toNat + (d - 10))]

/-- `Writes base n cs`: a row of digits of the base, the most significant first, that has the value
`n`. -/
inductive Writes (base : Nat) : Nat → List Char → Prop
  | digit {d : Nat} {c : Char} (hd : d < base) (hc : c ∈ digitChars d) : Writes base d [c]
  | next {n d : Nat} {cs : List Char} {c : Char} (h : Writes base n cs) (hd : d < base)
      (hc : c ∈ digitChars d) : Writes base (n * base + d) (cs ++ [c])

/-- `IsNumeral n base ds cs`: the numeral `cs`, which an `N` may follow, has the value `n` in the
digits `ds` of the base. It is zero, or made of digits of the base ten that do not start with a
zero, of the base sixteen after `0x`, or of the base eight after a zero. -/
inductive IsNumeral : Nat → Nat → List Char → List Char → Prop
  | zero : IsNumeral 0 10 ['0'] ['0']
  | decimal {n : Nat} {ds : List Char} (h : Writes 10 n ds) (hzero : ds.head? ≠ some '0') :
      IsNumeral n 10 ds ds
  | hexadecimal {n : Nat} {x : Char} {ds : List Char} (hx : x ∈ ['x', 'X']) (h : Writes 16 n ds) :
      IsNumeral n 16 ds ('0' :: x :: ds)
  | octal {n : Nat} {ds : List Char} (h : Writes 8 n ds) : IsNumeral n 8 ds ('0' :: ds)

/-- The notations of a number without a sign, each with its base and its digits. -/
inductive IsInteger (n : Nat) : Nat → List Char → List Char → Prop
  | numeral {base : Nat} {ds cs suffix : List Char} (h : IsNumeral n base ds cs)
      (hs : suffix ∈ [[], ['N']]) : IsInteger n base ds (cs ++ suffix)
  | radix {base : Nat} {x : Char} {ds : List Char} (hle : 2 ≤ base) (hbase : base ≤ 36)
      (hx : x ∈ ['r', 'R']) (h : Writes base n ds) :
      IsInteger n base ds (Nat.toDigits 10 base ++ x :: ds)

/-- The digits are more than integers are read from, and their base is no power of two. -/
def IsOverlong (base : Nat) (ds : List Char) : Prop :=
  Text.longestNumeral < ds.length ∧ ∀ k, base ≠ 2 ^ k

variable {n base : Nat} {cs ds suffix : List Char} {c x : Char} {features : List String}

/-- The digits that are refused are those of an overlong numeral. -/
theorem isTooLong_iff (hle : 2 ≤ base) (hbase : base ≤ 36) :
    isTooLong base ds = true ↔ IsOverlong base ds := by
  have hpowers : ∀ base < 37, 2 ≤ base →
      (binaryBases.contains base = true ↔ ∃ k < 6, base = 2 ^ k) := by
    decide +kernel
  have hbinary : binaryBases.contains base = false ↔ ∀ k, base ≠ 2 ^ k := by
    rw [← Bool.not_eq_true, hpowers base (by omega) hle, not_exists]
    refine forall_congr' fun k => ⟨fun h hk => h ⟨?_, hk⟩, fun h hk => h hk.2⟩
    -- beyond the fifth the powers of two are no bases
    by_contra hlt
    have hpow : 2 ^ 6 ≤ 2 ^ k := Nat.pow_le_pow_right (by decide) (Nat.not_lt.1 hlt)
    omega
  rw [isTooLong, Bool.and_eq_true, Bool.not_eq_true', hbinary, decide_eq_true_iff, IsOverlong,
    and_comm]

/-! ## Digits -/

/-- What there is to know of the characters that digits are written as. -/
theorem facts_of_mem_digitChars : ∀ d < 36, ∀ c ∈ digitChars d,
    digitValue? c = some d ∧ c.isAlphanum = true ∧ plainDigit c = c ∧ isNumeralBlank c = false := by
  have hall : ∀ d < 36, ((digitChars d).all fun c => digitValue? c == some d && c.isAlphanum &&
      plainDigit c == c && !isNumeralBlank c) = true := by
    decide +kernel
  intro d hd c hc
  simpa [and_assoc] using List.all_eq_true.1 (hall d hd) c hc

/-- The letter that marks a base after a zero is no digit of that base. -/
theorem toLower_ne_baseMark : ∀ base ∈ [2, 8, 16], ∀ d < base, ∀ c ∈ digitChars d,
    baseMark? base ≠ some c.toLower := by
  have hall : ∀ base ∈ [2, 8, 16], ∀ d < base,
      ((digitChars d).all fun c => baseMark? base != some c.toLower) = true := by
    decide +kernel
  intro base hbase d hd c hc
  simpa using List.all_eq_true.1 (hall base hbase d hd) c hc

namespace Writes

/-- A number is written with some digit. -/
theorem ne_nil (h : Writes base n cs) : cs ≠ [] := by
  cases h <;> simp

/-- What it is written with are characters of digits below the base. -/
theorem exists_digit (h : Writes base n cs) (hc : c ∈ cs) : ∃ d < base, c ∈ digitChars d := by
  induction h with
  | digit hd hd' =>
    obtain rfl := List.mem_singleton.1 hc
    exact ⟨_, hd, hd'⟩
  | next _ hd hd' ih =>
    rcases List.mem_append.1 hc with hc | hc
    · exact ih hc
    · obtain rfl := List.mem_singleton.1 hc
      exact ⟨_, hd, hd'⟩

/-- The characters of the digits below a base of 36 at most are letters and figures. -/
theorem isAlphanum (h : Writes base n cs) (hbase : base ≤ 36) (hc : c ∈ cs) :
    c.isAlphanum = true := by
  obtain ⟨d, hd, hmem⟩ := h.exists_digit hc
  exact (facts_of_mem_digitChars d (by omega) c hmem).2.1

/-- So they are a numeral, also in a greater base. -/
theorem isNumeral (h : Writes base n cs) (hbase : base ≤ 36) {base' : Nat} (hle : base ≤ base') :
    isNumeralOf base' cs = true := by
  refine isNumeralOf_iff.2 ⟨h.ne_nil, fun c hc => ?_⟩
  obtain ⟨d, hd, hmem⟩ := h.exists_digit hc
  rw [isDigitOf, (facts_of_mem_digitChars d (by omega) c hmem).1]
  exact decide_eq_true (by omega)

/-- Reading the digits gives back the number. -/
theorem digitsValue_eq (h : Writes base n cs) (hbase : base ≤ 36) : digitsValue base cs = n := by
  induction h with
  | digit hd hc =>
    simp [digitsValue, (facts_of_mem_digitChars _ (by omega) _ hc).1]
  | next _ hd hc ih =>
    rw [digitsValue] at ih ⊢
    rw [List.foldl_append, ih]
    simp [(facts_of_mem_digitChars _ (by omega) _ hc).1]

end Writes

/-! ## Digits after a base -/

/-- Digits alone have no separators in them. -/
theorem separated?_eq_self (hne : cs ≠ []) (hdigits : ∀ c ∈ cs, isDigitOf base c = true)
    (hplain : ∀ c ∈ cs, c.isAlphanum = true) : separated? base cs = some cs := by
  fun_induction separated? base cs with
  | case1 => exact absurd rfl hne
  | case2 c hc => rfl
  | case3 c hc => exact absurd (hdigits c List.mem_cons_self) hc
  | case4 c cs => cases hplain '_' (by simp)
  | case5 c cs => cases hplain '_' (by simp)
  | case6 c cs hone hmark hc ih =>
    have hcs : cs ≠ [] := by
      rintro rfl
      exact hone rfl
    rw [ih hcs (List.forall_mem_cons.1 hdigits).2 (List.forall_mem_cons.1 hplain).2]
    rfl
  | case7 c cs hone hmark hc => exact absurd (hdigits c List.mem_cons_self) hc

namespace Writes

/-- Digits alone have no sign in front of them. -/
theorem splitSign_eq (h : Writes base n cs) (hbase : base ≤ 36) :
    splitSign cs = (false, cs) := by
  unfold splitSign
  split
  · cases h.isAlphanum hbase List.mem_cons_self
  · cases h.isAlphanum hbase List.mem_cons_self
  · rfl

/-- They have no mark of a base, since the letters of the marks are not digits in those bases. -/
theorem dropBaseMark_eq (h : Writes base n cs) : dropBaseMark base cs = cs := by
  unfold dropBaseMark
  split
  · next c cs =>
    rw [if_neg]
    intro hmark
    obtain ⟨d, hd, hc⟩ := h.exists_digit (c := c) (by simp)
    have hmem : base ∈ [2, 8, 16] := by
      unfold baseMark? at hmark
      split_ifs at hmark with h₂ h₈ h₁₆
      · simp [h₂]
      · simp [h₈]
      · simp [h₁₆]
    exact toLower_ne_baseMark base hmem d hd c hc hmark.symm
  · rfl

/-- So digits after a base are read as the number, unless there are too many. -/
theorem lenientInteger?_eq (h : Writes base n cs) (hle : 2 ≤ base) (hbase : base ≤ 36) :
    lenientInteger? base cs = if isTooLong base cs then none else some (n : Int) := by
  have hfacts : ∀ c ∈ cs, plainDigit c = c ∧ isNumeralBlank c = false := by
    intro c hc
    obtain ⟨d, hd, hmem⟩ := h.exists_digit hc
    exact (facts_of_mem_digitChars d (by omega) c hmem).2.2
  have hplain : cs.map plainDigit = cs := by
    rw [List.map_congr_left fun c hc => (hfacts c hc).1]
    exact List.map_id cs
  have hblank : ∀ ds : List Char, (∀ c ∈ ds, c ∈ cs) → ds.dropWhile isNumeralBlank = ds :=
    fun ds hds => List.dropWhile_eq_self_iff.2 fun hlt =>
      Bool.not_eq_true _ ▸ (hfacts _ (hds _ (List.get_mem ds ⟨0, hlt⟩))).2
  have hdigits := (isNumeralOf_iff.1 (h.isNumeral hbase (Nat.le_refl base))).2
  have hseparated : separated? base cs = some cs :=
    separated?_eq_self h.ne_nil hdigits fun c => h.isAlphanum hbase
  rw [lenientInteger?, guard, if_pos ⟨hle, hbase⟩]
  simp only [hplain, hblank cs fun _ => id, hblank cs.reverse fun _ => List.mem_reverse.1,
    List.reverse_reverse, h.splitSign_eq hbase, h.dropBaseMark_eq, hseparated,
    h.digitsValue_eq hbase, Option.bind_eq_bind, Option.bind_some, pure, Bool.false_eq_true,
    if_false]
  cases isTooLong base cs <;> rfl

end Writes

/-! ## Integers without a sign -/

/-- A suffix can be told from digits up to base sixteen; after that the letter is a digit. -/
theorem Writes.dropSuffix_eq (h : Writes base n cs) (hbase : base ≤ 16)
    (hs : suffix ∈ [[], ['N']]) : dropSuffix 'N' (cs ++ suffix) = cs := by
  refine dropSuffix_append (fun hmem => ?_) hs
  have hN : isDigitOf 16 'N' = true :=
    (isNumeralOf_iff.1 (h.isNumeral (by omega) hbase)).2 'N' hmem
  cases hN

/-- What an integer comes to that has the digits. -/
def outcome (base : Nat) (ds : List Char) (n : Int) : Except ReadFault Int :=
  if isTooLong base ds then .error .badDigits else .ok n

/-- Every notation without an explicit base is read as what it stands for. -/
theorem integer?_numeral (h : IsNumeral n base ds cs) (hs : suffix ∈ [[], ['N']]) :
    integer? (cs ++ suffix) = some (outcome base ds n) := by
  induction h with
  | zero =>
    simp only [List.mem_cons, List.not_mem_nil, or_false] at hs
    rcases hs with rfl | rfl <;> rfl
  | @decimal n ds h hzero =>
    rw [integer?_decimal (h.isNumeral (by omega) (Nat.le_refl 10)) hzero hs, decimalInteger,
      h.digitsValue_eq (by omega)]
    rfl
  | @hexadecimal n x cs hx h =>
    -- the base is a power of two, so that any number of digits is read
    change _ = some (Except.ok (n : Int))
    have hmark : (x :: cs ++ suffix).head? = some 'x' ∨ (x :: cs ++ suffix).head? = some 'X' := by
      simpa using hx
    have hmem : x ∈ dropSuffix 'N' ([] ++ x :: (cs ++ suffix)) :=
      mem_dropSuffix (List.append_ne_nil_of_left_ne_nil h.ne_nil suffix)
    have hnonempty : (dropSuffix 'N' (x :: (cs ++ suffix))).isEmpty = false :=
      List.isEmpty_eq_false_iff.2 (List.ne_nil_of_mem hmem)
    rw [List.cons_append, List.cons_append, integer?]
    rw [hnonempty, if_neg Bool.false_ne_true, List.drop_succ_cons, List.drop_zero,
      h.dropSuffix_eq (Nat.le_refl 16) hs, if_pos ⟨hmark, h.isNumeral (by omega)
      (Nat.le_refl 16)⟩, h.digitsValue_eq (by omega)]
  | @octal n cs h =>
    change _ = some (Except.ok (n : Int))
    have hmark : ¬ ((cs ++ suffix).head? = some 'x' ∨ (cs ++ suffix).head? = some 'X') := by
      obtain ⟨c, cs, rfl⟩ := List.exists_cons_of_ne_nil h.ne_nil
      have hc : isDigitOf 8 c = true :=
        (isNumeralOf_iff.1 (h.isNumeral (by omega) (Nat.le_refl 8))).2 c List.mem_cons_self
      rintro (hx | hx) <;> cases hx <;> cases hc
    rw [List.cons_append, integer?]
    rw [h.dropSuffix_eq (by omega) hs, List.isEmpty_eq_false_iff.2 h.ne_nil,
      if_neg Bool.false_ne_true, if_neg fun hx => hmark hx.1,
      if_pos (h.isNumeral (by omega) (Nat.le_refl 8)), h.digitsValue_eq (by omega)]

/-- A base has one digit or two. -/
theorem length_toDigits : ∀ base ≤ 36,
    (Nat.toDigits 10 base).length = 1 ∨ (Nat.toDigits 10 base).length = 2 := by
  decide +kernel

/-- Every notation of an integer without a sign is read as the integer, or refused for its many
digits. -/
theorem integer?_of_isInteger (h : IsInteger n base ds cs) :
    integer? cs = some (outcome base ds n) := by
  induction h with
  | numeral h hs => exact integer?_numeral h hs
  | @radix x ds hle hbase hx h =>
    rw [integer?_radix (length_toDigits base hbase) (fun c => isDigit_of_mem_toDigits)
      (head?_toDigits_ne (by omega)) (by simpa using hx) (h.isNumeral hbase hbase),
      digitsValue_toDigits, h.lenientInteger?_eq hle hbase, outcome]
    cases isTooLong base ds <;> rfl

/-! ## Reading -/

/-- A notation has letters and figures only. -/
theorem IsNumeral.isAlphanum (h : IsNumeral n base ds cs) : ∀ c ∈ cs, c.isAlphanum = true := by
  cases h with
  | zero => exact List.all_eq_true.1 rfl
  | decimal h hzero => exact fun c => h.isAlphanum (by omega)
  | hexadecimal hx h =>
    have hmark : ∀ x ∈ ['x', 'X'], x.isAlphanum = true := List.all_eq_true.1 rfl
    exact List.forall_mem_cons.2 ⟨rfl, List.forall_mem_cons.2 ⟨hmark _ hx, fun c =>
      h.isAlphanum (by omega)⟩⟩
  | octal h => exact List.forall_mem_cons.2 ⟨rfl, fun c => h.isAlphanum (by omega)⟩

/-- A notation of an integer has letters and figures only, also with an explicit base. -/
theorem IsInteger.isAlphanum (h : IsInteger n base ds cs) : ∀ c ∈ cs, c.isAlphanum = true := by
  cases h with
  | numeral h hs =>
    have hmark : ∀ suffix ∈ [[], ['N']], ∀ c ∈ suffix, c.isAlphanum = true := by
      simp
    exact List.forall_mem_append.2 ⟨h.isAlphanum, hmark _ hs⟩
  | radix hle hbase hx h =>
    have hmark : ∀ x ∈ ['r', 'R'], x.isAlphanum = true := List.all_eq_true.1 rfl
    refine List.forall_mem_append.2 ⟨fun c hc => ?_, List.forall_mem_cons.2 ⟨hmark _ hx, ?_⟩⟩
    · rw [Char.isAlphanum, isDigit_of_mem_toDigits hc, Bool.or_true]
    · exact fun c => h.isAlphanum hbase

/-- An integer starts with a digit, in whatever notation: with a zero, or with a digit of the base
ten. -/
theorem IsInteger.exists_digit (h : IsInteger n base ds cs) :
    ∃ c rest, cs = c :: rest ∧ c.isDigit = true := by
  cases h with
  | @numeral ds cs suffix h hs =>
    suffices h : ∃ c rest, cs = c :: rest ∧ c.isDigit = true by
      obtain ⟨c, rest, rfl, hc⟩ := h
      exact ⟨c, rest ++ suffix, rfl, hc⟩
    cases h with
    | zero => exact ⟨'0', [], rfl, rfl⟩
    | decimal h hzero =>
      obtain ⟨c, rest, rfl⟩ := List.exists_cons_of_ne_nil h.ne_nil
      refine ⟨c, rest, rfl, isDigit_of_isDigitOf_ten ?_⟩
      exact (isNumeralOf_iff.1 (h.isNumeral (by omega) (Nat.le_refl 10))).2 c List.mem_cons_self
    | hexadecimal hx h => exact ⟨'0', _, rfl, rfl⟩
    | octal h => exact ⟨'0', _, rfl, rfl⟩
  | @radix x ds hle hbase hx h =>
    obtain ⟨c, rest, hrest⟩ :=
      List.exists_cons_of_ne_nil (Nat.toDigits_ne_nil (n := base) (b := 10))
    refine ⟨c, rest ++ x :: ds, by rw [hrest]; rfl, isDigit_of_mem_toDigits (k := base) ?_⟩
    rw [hrest]
    exact List.mem_cons_self

/-- A text that is one number is read as that number, or is refused with it. -/
theorem first_of_number? {t : List Char} {result : Except ReadFault Datum}
    (htoken : ∀ c ∈ t, isTokenChar c = true) (hstart : startsNumber t = true)
    (hnumber : number? t = some result) : first (String.ofList t) features = result := by
  obtain ⟨c, t, rfl⟩ : ∃ c t', t = c :: t' := List.exists_cons_of_ne_nil (by
    rintro rfl
    cases hstart)
  have hne : ∀ s, startsNumber s = false → c :: t ≠ s := by
    rintro s hs rfl
    rw [hstart] at hs
    cases hs
  have hmark : c ∉ [':', '#', '\''] := by
    intro hmem
    simp only [List.mem_cons, List.not_mem_nil, or_false] at hmem
    rcases hmem with rfl | rfl | rfl <;> cases t <;> cases hstart
  have hend : EndsToken [] := by simp [EndsToken]
  have hd : atomOf (c :: t) [] = result.mapError .worthless := by
    rw [atomOf, if_neg (by simp), if_neg (hne _ rfl), if_neg (hne _ rfl), if_neg (hne _ rfl),
      if_pos hstart, hnumber]
    cases result <;> rfl
  obtain ⟨c', tail, hskip, hscan⟩ := exists_scan_token (List.all_eq_true.2 htoken) hmark hend hd
  rw [List.append_nil] at hskip
  cases result with
  | ok d =>
    rw [first, String.toList_ofList, advance_of_scan hskip hscan]
    rfl
  | error e =>
    rw [first, String.toList_ofList, advance_of_scan_error hskip hscan]
    rfl

/-- The signs that may stand before a number. -/
def signs : List (List Char) := [[], ['+'], ['-']]

/-- The number after a sign. -/
def signed (sign : List Char) (n : Nat) : Int := if sign = ['-'] then -n else n

/-- After each sign an integer comes to the same, but for the sign: the sign is taken off before the
notations are tried. -/
theorem first_of_sign (h : IsInteger n base ds cs) {sign : List Char} (hsign : sign ∈ signs) :
    first (String.ofList (sign ++ cs)) features = (outcome base ds (signed sign n)).map .int := by
  have hcs : ∀ c ∈ cs, isTokenChar c = true :=
    fun c hc => isTokenChar_of_isAlphanum (h.isAlphanum c hc)
  have hvalue := integer?_of_isInteger h
  obtain ⟨c, rest, rfl, hc⟩ := h.exists_digit
  have hdigit : Text.isDigit c = true := by rw [Text.isDigit, hc, Bool.true_or]
  have hnone : splitSign (c :: rest) = (false, c :: rest) := by
    unfold splitSign
    split
    · next hsign => cases hsign; cases hc
    · next hsign => cases hsign; cases hc
    · rfl
  simp only [signs, List.mem_cons, List.not_mem_nil, or_false] at hsign
  rcases hsign with rfl | rfl | rfl
  · refine first_of_number? hcs (startsNumber_of_isDigit hc rest) ?_
    simp only [List.nil_append, number?, hnone, hvalue, outcome]
    cases isTooLong base ds <;> rfl
  · refine first_of_number? (List.forall_mem_cons.2 ⟨rfl, hcs⟩) (by simp [startsNumber, hdigit]) ?_
    simp only [List.singleton_append, number?, splitSign, hvalue, outcome]
    cases isTooLong base ds <;> rfl
  · refine first_of_number? (List.forall_mem_cons.2 ⟨rfl, hcs⟩) (by simp [startsNumber, hdigit]) ?_
    simp only [List.singleton_append, number?, splitSign, hvalue, outcome]
    cases isTooLong base ds <;> rfl

/-- Whether the digits are too many depends on the notation alone. -/
theorem IsInteger.isTooLong_iff (h : IsInteger n base ds cs) :
    isTooLong base ds = true ↔ IsOverlong base ds := by
  cases h with
  | radix hle hbase hx h => exact Reader.isTooLong_iff hle hbase
  | numeral h hs => cases h <;> exact Reader.isTooLong_iff (by decide) (by decide)

/-- An overlong numeral is refused, with either sign. -/
theorem first_of_isOverlong (h : IsInteger n base ds cs) (hlong : IsOverlong base ds)
    {sign : List Char} (hsign : sign ∈ signs) :
    first (String.ofList (sign ++ cs)) features = .error .badDigits := by
  rw [first_of_sign h hsign, outcome, if_pos (h.isTooLong_iff.2 hlong)]
  rfl

/-- A whole number is read from each of its notations whose digits are not overlong, with a minus
sign as the number that is as far below zero. A notation whose digits are overlong is refused. -/
theorem first_of_isInteger (h : IsInteger n base ds cs) (features : List String) :
    (¬ IsOverlong base ds →
      first (String.ofList cs) features = .ok (.int n) ∧
        first (String.ofList ('+' :: cs)) features = .ok (.int n) ∧
        first (String.ofList ('-' :: cs)) features = .ok (.int (-n))) ∧
      (IsOverlong base ds → ∀ sign ∈ signs,
        first (String.ofList (sign ++ cs)) features = .error .badDigits) := by
  refine ⟨fun hshort => ?_, fun hlong sign hsign => first_of_isOverlong h hlong hsign⟩
  have hread : ∀ sign ∈ signs,
      first (String.ofList (sign ++ cs)) features = .ok (.int (signed sign n)) := by
    intro sign hsign
    rw [first_of_sign h hsign, outcome, if_neg (mt h.isTooLong_iff.1 hshort)]
    rfl
  exact ⟨hread [] (by simp [signs]), hread ['+'] (by simp [signs]), hread ['-'] (by simp [signs])⟩

/-- The last digit of the base 36 in both cases, after a zero. -/
theorem first_of_isInteger_radix :
    IsInteger 1295 36 ['0', 'z', 'Z'] "36R0zZ".toList ∧ ¬ IsOverlong 36 ['0', 'z', 'Z'] ∧
      first (String.ofList "36R0zZ".toList) ["clj"] = .ok (.int 1295) ∧
      first (String.ofList ('+' :: "36R0zZ".toList)) ["clj"] = .ok (.int 1295) ∧
      first (String.ofList ('-' :: "36R0zZ".toList)) ["clj"] = .ok (.int (-1295)) := by
  have h : IsInteger 1295 36 ['0', 'z', 'Z'] "36R0zZ".toList := by
    have hzero : Writes 36 0 ['0'] := .digit (by decide) (by decide)
    have hlower : Writes 36 35 ['0', 'z'] := hzero.next (d := 35) (by decide) (by decide)
    have hupper : Writes 36 1295 ['0', 'z', 'Z'] := hlower.next (d := 35) (by decide) (by decide)
    have hmark : 'R' ∈ ['r', 'R'] := by decide
    have htext : "36R0zZ".toList = Nat.toDigits 10 36 ++ 'R' :: ['0', 'z', 'Z'] := by
      decide +kernel
    rw [htext]
    exact .radix (by decide) (by decide) hmark hupper
  have hshort : ¬ IsOverlong 36 ['0', 'z', 'Z'] := fun hlong => absurd hlong.1 (by decide)
  exact ⟨h, hshort, (first_of_isInteger h ["clj"]).1 hshort⟩

/-- A row of ones, one more than an integer may have digits. -/
def tooManyOnes : List Char := List.replicate (Text.longestNumeral + 1) '1'

/-- Any number of ones is the decimal form of some number. -/
theorem exists_writes_ones (k : Nat) : ∃ n, Writes 10 n (List.replicate (k + 1) '1') := by
  induction k with
  | zero => exact ⟨1, .digit (by decide) (by decide)⟩
  | succ k ih =>
    obtain ⟨n, hn⟩ := ih
    rw [List.replicate_succ']
    exact ⟨n * 10 + 1, hn.next (by decide) (by decide)⟩

/-- A decimal numeral of a number that is not read. -/
theorem first_of_tooManyOnes : (∃ n, IsInteger n 10 tooManyOnes tooManyOnes) ∧
    first (String.ofList tooManyOnes) ["clj"] = .error .badDigits := by
  obtain ⟨n, hn⟩ := exists_writes_ones Text.longestNumeral
  have h : IsInteger n 10 tooManyOnes tooManyOnes := by
    have hzero : tooManyOnes.head? ≠ some '0' := by
      rw [tooManyOnes, List.replicate_succ]
      decide
    have h : IsInteger n 10 tooManyOnes (tooManyOnes ++ []) :=
      .numeral (.decimal hn hzero) (by decide)
    rwa [List.append_nil] at h
  have hlong : IsOverlong 10 tooManyOnes := by
    refine (Reader.isTooLong_iff (by decide) (by decide)).1 ?_
    rw [isTooLong_ten, decide_eq_true_iff, tooManyOnes, List.length_replicate]
    exact Nat.lt_succ_self _
  have hnone : ([] : List Char) ∈ signs := by simp [signs]
  have hfirst : first (String.ofList ([] ++ tooManyOnes)) ["clj"] = .error .badDigits :=
    first_of_isOverlong h hlong hnone
  rw [List.nil_append] at hfirst
  exact ⟨⟨n, h⟩, hfirst⟩

end BuildFiles.Reader
