import BuildFiles.Datum.Display
import BuildFiles.Reader.Lexeme
import Mathlib.Data.List.Basic
import Mathlib.Tactic.SplitIfs

/-!
# Decimal numerals

An integer that is written in decimal digits, with a minus sign before them if it is negative, is
read as itself unless its digits are more than are read: `number?_toString`. The digits are those of
`Nat.toDigits`, the first of which is a zero for zero alone, so that no octal numeral is met.
-/

namespace BuildFiles.Reader

/-- A figure has the value that it stands for. -/
theorem digitValue?_of_isDigit {c : Char} (h : c.isDigit = true) :
    digitValue? c = some (c.toNat - '0'.toNat) := if_pos h

theorem isDigitOf_ten {c : Char} (h : c.isDigit = true) : isDigitOf 10 c = true := by
  have hle : c.toNat ≤ '9'.toNat := by
    simp only [Char.isDigit, Bool.and_eq_true, decide_eq_true_eq] at h
    exact h.2
  rw [isDigitOf, digitValue?_of_isDigit h]
  simp only [Char.reduceToNat] at hle ⊢
  exact decide_eq_true (by omega)

variable {cs : List Char} {k : Nat}

/-- In base ten digits are read as numerals are read elsewhere. -/
theorem digitsValue_eq_ofDigitChars (h : ∀ c ∈ cs, c.isDigit = true) :
    digitsValue 10 cs = Nat.ofDigitChars 10 cs 0 := by
  rw [digitsValue, Nat.ofDigitChars_eq_foldl]
  refine List.foldl_ext _ _ 0 fun acc c hc => ?_
  rw [digitValue?_of_isDigit (h c hc), Option.getD_some, Nat.mul_comm]

/-- A number is written with figures only in base ten. -/
theorem isDigit_of_mem_toDigits {c : Char} (h : c ∈ Nat.toDigits 10 k) : c.isDigit = true :=
  Nat.isDigit_of_mem_toDigits (by decide) (by decide) h

/-- What is written for a number is read as it. -/
theorem digitsValue_toDigits (k : Nat) : digitsValue 10 (Nat.toDigits 10 k) = k := by
  rw [digitsValue_eq_ofDigitChars fun _ => isDigit_of_mem_toDigits, Nat.ofDigitChars_ten_toDigits]

theorem isNumeralOf_toDigits (k : Nat) : isNumeralOf 10 (Nat.toDigits 10 k) = true := by
  rw [isNumeralOf, Bool.and_eq_true]
  refine ⟨by simp, List.all_eq_true.2 fun c hc => isDigitOf_ten (isDigit_of_mem_toDigits hc)⟩

/-- Of all decimal numerals only that of zero starts with a zero. -/
theorem head?_toDigits_ne (h : k ≠ 0) : (Nat.toDigits 10 k).head? ≠ some '0' := by
  induction k using Nat.strongRecOn with
  | ind k ih =>
    rw [Nat.toDigits_eq_if (by decide)]
    split_ifs with hk
    · simpa using h
    · rw [List.head?_append_of_ne_nil _ Nat.toDigits_ne_nil]
      exact ih (k / 10) (by omega) (by omega)

/-- Without the mark there is no suffix to drop. -/
theorem dropSuffix_eq {mark : Char} (h : mark ∉ cs) : dropSuffix mark cs = cs :=
  if_neg fun hlast => h (List.mem_of_getLast? hlast)

/-- In base ten only the number of digits matters. -/
theorem isTooLong_ten (ds : List Char) :
    isTooLong 10 ds = decide (Text.longestNumeral < ds.length) := rfl

/-- Digits that are not too many are read. -/
theorem decimalInteger_of_le (h : cs.length ≤ Text.longestNumeral) :
    decimalInteger cs = .ok (digitsValue 10 cs) := by
  rw [decimalInteger, isTooLong_ten, if_neg (by simpa using h)]

/-- One digit more is refused. -/
theorem decimalInteger_of_lt (h : Text.longestNumeral < cs.length) :
    decimalInteger cs = .error .badDigits := by
  rw [decimalInteger, isTooLong_ten, if_pos (decide_eq_true h)]

/-- A number is read from its digits just if it is not long, which is to say that it can be
written. -/
theorem decimalInteger_toDigits (k : Nat) : decimalInteger (Nat.toDigits 10 k) =
    if Datum.isLong k then .error .badDigits else .ok k := by
  rw [decimalInteger, isTooLong_ten, digitsValue_toDigits]
  rfl

/-- The digits of a number are an integer in decimal notation: they start with no zero unless they
are one. -/
theorem integer?_toDigits (k : Nat) :
    integer? (Nat.toDigits 10 k) = some (decimalInteger (Nat.toDigits 10 k)) := by
  by_cases hk : k = 0
  · rw [hk]
    rfl
  · have hN : 'N' ∉ Nat.toDigits 10 k := fun hmem => by
      have := isDigit_of_mem_toDigits hmem
      cases this
    unfold integer?
    split
    · next rest hrest =>
      -- a zero before other digits would make the numeral octal
      have := head?_toDigits_ne hk
      rw [hrest] at this
      exact absurd rfl this
    · rw [dropSuffix_eq hN, if_pos (isNumeralOf_toDigits k)]

/-- The decimal digits of a number have no sign in front of them. -/
theorem splitSign_toDigits (k : Nat) :
    splitSign (Nat.toDigits 10 k) = (false, Nat.toDigits 10 k) := by
  have hsign : ∀ c ∈ Nat.toDigits 10 k, c ≠ '-' ∧ c ≠ '+' := by
    intro c hc
    have hdigit := isDigit_of_mem_toDigits hc
    constructor <;> rintro rfl <;> cases hdigit
  unfold splitSign
  split
  · next hcs => exact absurd rfl (hsign '-' (by simp [hcs])).1
  · next hcs => exact absurd rfl (hsign '+' (by simp [hcs])).2
  · rfl

/-- The decimal numeral of an integer: the digits, after a sign if it is negative. -/
theorem toList_toString (n : Int) :
    (toString n).toList =
      if n < 0 then '-' :: Nat.toDigits 10 n.natAbs else Nat.toDigits 10 n.natAbs := by
  rw [Int.toString_eq_repr, Int.repr_eq_if]
  split_ifs with h₁ h₂ h₂
  · omega
  · rw [Nat.toList_repr, show n.toNat = n.natAbs by omega]
  · rw [String.toList_append, Nat.toList_repr, show (-n).toNat = n.natAbs by omega]
    rfl
  · omega

/-- The numerals of two integers differ. -/
theorem toString_injective : Function.Injective (toString : Int → String) := by
  intro n m h
  have hlists := congrArg String.toList h
  rw [toList_toString, toList_toString] at hlists
  have hnegative : ∀ k k' : Nat, '-' :: Nat.toDigits 10 k ≠ Nat.toDigits 10 k' := by
    intro k k' hsame
    have := isDigit_of_mem_toDigits (c := '-') (k := k') (hsame ▸ List.mem_cons_self)
    cases this
  have hvalue : ∀ {k k' : Nat}, Nat.toDigits 10 k = Nat.toDigits 10 k' → k = k' := by
    intro k k' hsame
    rw [← digitsValue_toDigits k, hsame, digitsValue_toDigits]
  split_ifs at hlists with hn hm hm
  · have := hvalue (List.cons.inj hlists).2
    omega
  · exact absurd hlists (hnegative _ _)
  · exact absurd hlists.symm (hnegative _ _)
  · have := hvalue hlists
    omega

/-- A numeral is read as the integer that it is of; one with too many digits is refused. -/
theorem number?_toString (n : Int) : number? (toString n).toList =
    some (if Datum.isLong n then .error .badDigits else .ok (.int n)) := by
  have hlong : Datum.isLong n = Datum.isLong n.natAbs := rfl
  rw [toList_toString, hlong]
  split_ifs with hn h h
  · simp only [number?, splitSign, integer?_toDigits, decimalInteger_toDigits, if_pos h]
  · simp only [number?, splitSign, integer?_toDigits, decimalInteger_toDigits, if_neg h, if_true]
    rw [show -(n.natAbs : Int) = n by omega]
  · simp only [number?, splitSign_toDigits, integer?_toDigits, decimalInteger_toDigits, if_pos h]
  · simp only [number?, splitSign_toDigits, integer?_toDigits, decimalInteger_toDigits, if_neg h,
      Bool.false_eq_true, if_false]
    rw [show (n.natAbs : Int) = n by omega]

theorem startsNumber_of_isDigit {c : Char} (h : c.isDigit = true) (t : List Char) :
    startsNumber (c :: t) = true := by
  have hdigit : Text.isDigit c = true := by rw [Text.isDigit, h, Bool.true_or]
  cases t with
  | nil => exact hdigit
  | cons d t => rw [startsNumber, hdigit, Bool.true_or]

/-- So the text of an integer starts as a number does. -/
theorem startsNumber_toString (n : Int) : startsNumber (toString n).toList = true := by
  obtain ⟨c, t, ht⟩ := List.exists_cons_of_ne_nil (Nat.toDigits_ne_nil (n := n.natAbs) (b := 10))
  have hc : c.isDigit = true := isDigit_of_mem_toDigits (k := n.natAbs) (by simp [ht])
  rw [toList_toString, ht]
  split_ifs
  · simp [startsNumber, Text.isDigit, hc]
  · exact startsNumber_of_isDigit hc t

end BuildFiles.Reader
