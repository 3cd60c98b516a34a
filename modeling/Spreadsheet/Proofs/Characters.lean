import Spreadsheet.Number.Whole
import Mathlib

/-!
# Letters, digits and decimal numbers

What the classes of characters have to do with each other, and how a decimal number is read back.
A digit string is one of many spellings of its number, which differ in the zeros at the front; the
one without such zeros is how the number is written.

Results:
1. `isDigit_iff`, `isLetter_iff`, `isBlank_eq_false_of_visible`: the classes by their code points;
2. `trim_eq_self`, `trim_eq_nil_iff`: what there is to trim;
3. `digitsValue_decimal`: a number is read back from its digits;
4. `decimal_digitsValue`: the digits of a number are written again, less the zeros in front.
-/

namespace Spreadsheet

/-! ## Characters -/

namespace Text

theorem isDigit_iff {c : Char} : isDigit c = true ↔ 48 ≤ c.toNat ∧ c.toNat ≤ 57 := by
  simp only [isDigit, Bool.and_eq_true, decide_eq_true_eq, Char.le_def, UInt32.le_iff_toNat_le]
  exact Iff.rfl

theorem isLetter_iff {c : Char} :
    isLetter c = true ↔ (65 ≤ c.toNat ∧ c.toNat ≤ 90) ∨ (97 ≤ c.toNat ∧ c.toNat ≤ 122) := by
  simp only [isLetter, Bool.or_eq_true, Bool.and_eq_true, decide_eq_true_eq, Char.le_def,
    UInt32.le_iff_toNat_le]
  exact Iff.rfl

theorem isBlank_eq_false_of_visible {c : Char} (hlow : 0x21 ≤ c.toNat) (hhigh : c.toNat ≤ 0x7E) :
    isBlank c = false := by
  simp only [isBlank, Bool.or_eq_false_iff, Bool.and_eq_false_iff, decide_eq_false_iff_not,
    beq_eq_false_iff_ne]
  omega

theorem isBlank_of_isDigit {c : Char} (h : isDigit c = true) : isBlank c = false := by
  obtain ⟨hlow, hhigh⟩ := isDigit_iff.mp h
  exact isBlank_eq_false_of_visible (by omega) (by omega)

theorem isBlank_of_isLetter {c : Char} (h : isLetter c = true) : isBlank c = false := by
  have := isLetter_iff.mp h
  exact isBlank_eq_false_of_visible (by omega) (by omega)

theorem isLetter_of_isDigit {c : Char} (h : isDigit c = true) : isLetter c = false := by
  have hdigit := isDigit_iff.mp h
  rw [← Bool.not_eq_true, isLetter_iff]
  omega

theorem isDigit_of_isLetter {c : Char} (h : isLetter c = true) : isDigit c = false := by
  rw [← Bool.not_eq_true]
  intro hdigit
  rw [isLetter_of_isDigit hdigit] at h
  exact nomatch h

/-- Where no character is blank there is nothing to trim. -/
theorem trim_eq_self {cs : List Char} (h : ∀ c ∈ cs, isBlank c = false) : trim cs = cs := by
  have hdrop : ∀ cs : List Char, (∀ c ∈ cs, isBlank c = false) → cs.dropWhile isBlank = cs := by
    intro cs h
    cases cs with
    | nil => rfl
    | cons c cs => rw [List.dropWhile_cons_of_neg (by simp [h c])]
  rw [trim, trimStart, hdrop cs h, trimEnd, hdrop cs.reverse fun c hc => h c (by simpa using hc),
    List.reverse_reverse]

/-- All of a text is trimmed away if it is blank, and only then. -/
theorem trim_eq_nil_iff {cs : List Char} : trim cs = [] ↔ ∀ c ∈ cs, isBlank c = true := by
  rw [trim, trimEnd, List.reverse_eq_nil_iff, List.dropWhile_eq_nil_iff, trimStart]
  simp only [List.mem_reverse]
  constructor
  · intro h c hc
    rw [← List.takeWhile_append_dropWhile (p := isBlank) (l := cs), List.mem_append] at hc
    exact hc.elim List.mem_takeWhile_imp (h c)
  · exact fun h c hc => h c ((List.dropWhile_sublist _).subset hc)

end Text

/-! ## Decimal numbers -/

namespace Number

open Text

theorem isDigit_of_mem_decimal {n : Nat} {c : Char} (h : c ∈ decimal n) : isDigit c = true := by
  have hdigit := Nat.isDigit_of_mem_toDigits (by decide) (by decide) h
  simp only [Char.isDigit, Bool.and_eq_true, decide_eq_true_eq, ge_iff_le,
    UInt32.le_iff_toNat_le] at hdigit
  exact isDigit_iff.mpr hdigit

theorem decimal_ne_nil (n : Nat) : decimal n ≠ [] :=
  Nat.toDigits_ne_nil

theorem digitsValue_decimal (n : Nat) : digitsValue (decimal n) = n := by
  have hvalue : digitsValue (decimal n) = Nat.ofDigitChars 10 (Nat.toDigits 10 n) 0 :=
    Nat.ofDigitChars_eq_foldl.symm
  rw [hvalue, Nat.ofDigitChars_ten_toDigits]

theorem digitsValue_concat (cs : List Char) (c : Char) :
    digitsValue (cs ++ [c]) = 10 * digitsValue cs + digitValue c := by
  rw [digitsValue, List.foldl_append]
  rfl

theorem digitValue_lt {c : Char} (h : isDigit c = true) : digitValue c < 10 := by
  have hdigit := isDigit_iff.mp h
  show c.toNat - 48 < 10
  omega

/-- A digit is the character of its value. -/
theorem digitChar_digitValue {c : Char} (h : isDigit c = true) :
    (digitValue c).digitChar = c := by
  have hdigit := isDigit_iff.mp h
  obtain ⟨n, hn, hc⟩ : ∃ n, n < 10 ∧ c = Char.ofNat (48 + n) :=
    ⟨c.toNat - 48, by omega, by rw [Nat.add_sub_cancel' hdigit.1, Char.ofNat_toNat]⟩
  subst hc
  revert n
  decide

theorem decimal_concat {n d : Nat} (hn : 0 < n) (hd : d < 10) :
    decimal (10 * n + d) = decimal n ++ [d.digitChar] := by
  have hdiv : (10 * n + d) / 10 = n := by omega
  have hmod : (10 * n + d) % 10 = d := by omega
  rw [decimal, Nat.toDigits_of_base_le (by decide) (by omega), hdiv, hmod, decimal]

/-- What is behind the zeros in front of a digit string: its number as it is written, if it is not
zero. -/
theorem dropWhile_zero_eq {cs : List Char} (h : ∀ c ∈ cs, isDigit c = true) :
    cs.dropWhile (· == '0') = if digitsValue cs = 0 then [] else decimal (digitsValue cs) := by
  -- by the last digit: in front of it there are zeros only, or the digits of a number already
  induction cs using List.reverseRecOn with
  | nil => rfl
  | append_singleton cs c ih =>
    have hc : isDigit c = true := h c (by simp)
    have hlt := digitValue_lt hc
    have hchar := digitChar_digitValue hc
    rw [List.dropWhile_append, ih fun d hd => h d (by simp [hd]), digitsValue_concat]
    rcases Nat.eq_zero_or_pos (digitsValue cs) with hzero | hpos
    · rw [hzero, if_pos rfl, List.isEmpty_nil, if_pos rfl, Nat.mul_zero, Nat.zero_add]
      by_cases hd : digitValue c = 0
      · rw [hd] at hchar
        rw [if_pos hd, ← hchar]
        rfl
      · have hne : ¬(c == '0') = true := by
          intro heq
          rw [eq_of_beq heq] at hd
          exact hd rfl
        have hdrop : [c].dropWhile (· == '0') = [c] := List.dropWhile_cons_of_neg hne
        rw [if_neg hd, hdrop, decimal, Nat.toDigits_of_lt_base hlt, hchar]
    · have hempty : (decimal (digitsValue cs)).isEmpty = false :=
        List.isEmpty_eq_false_iff.mpr (decimal_ne_nil _)
      rw [if_neg (Nat.ne_of_gt hpos), hempty, if_neg Bool.false_ne_true, if_neg (by omega),
        decimal_concat hpos hlt, hchar]

/-- The digits of a number that is not zero are written again, less the zeros in front. -/
theorem decimal_digitsValue {cs : List Char} (h : ∀ c ∈ cs, isDigit c = true)
    (hpos : 0 < digitsValue cs) : decimal (digitsValue cs) = cs.dropWhile (· == '0') := by
  rw [dropWhile_zero_eq h, if_neg (Nat.ne_of_gt hpos)]

end Number

end Spreadsheet
