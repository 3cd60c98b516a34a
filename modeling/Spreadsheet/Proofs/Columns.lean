import Spreadsheet.Address
import Spreadsheet.Proofs.Characters

/-!
# Column letters

Column letters are numbers with the digits 1 to 26 and no zero. That each positive number has one
spelling, and each spelling a number, rests on one step: behind the last letter of a number `n`
stand the letters of `(n - 1) / 26`, since `n = 26 * ((n - 1) / 26) + ((n - 1) % 26 + 1)`. The
number zero has the empty spelling, which is not used for a column.

Results:
1. `numberOf_lettersOf`: a number is read back from its letters;
2. `lettersOf_numberOf`: letters are written again from their number, in upper case;
3. `letters_injective`: no two columns have the same letters;
4. `ofLetters_eq_ok_iff`: when letters are read, and as which column;
5. `ofLetters_letters`, `ofLetters_letters_last`: every column but the last is read back.
-/

namespace Spreadsheet.Column

open Text

/-! ## Letters -/

theorem isLetter_letter {n : Nat} (h : n < 26) : isLetter (letter n) = true := by
  revert n
  decide

theorem letterValue_letter {n : Nat} (h : n < 26) : letterValue (letter n) = n + 1 := by
  revert n
  decide

/-- What holds of the letters in both cases holds of every letter. -/
@[elab_as_elim]
theorem letter_induction {P : Char → Prop} {c : Char} (h : isLetter c = true)
    (upper : ∀ n < 26, P (Char.ofNat (65 + n))) (lower : ∀ n < 26, P (Char.ofNat (97 + n))) :
    P c := by
  rcases isLetter_iff.mp h with ⟨hlow, hhigh⟩ | ⟨hlow, hhigh⟩
  · have hc := upper (c.toNat - 65) (by omega)
    rwa [Nat.add_sub_cancel' hlow, Char.ofNat_toNat] at hc
  · have hc := lower (c.toNat - 97) (by omega)
    rwa [Nat.add_sub_cancel' hlow, Char.ofNat_toNat] at hc

theorem letterValue_bounds {c : Char} (h : isLetter c = true) :
    1 ≤ letterValue c ∧ letterValue c ≤ 26 :=
  letter_induction h (by decide) (by decide)

theorem letter_letterValue {c : Char} (h : isLetter c = true) :
    letter (letterValue c - 1) = c.toUpper :=
  letter_induction h (by decide) (by decide)

/-! ## Numbers -/

theorem numberOf_concat (cs : List Char) (c : Char) :
    numberOf (cs ++ [c]) = 26 * numberOf cs + letterValue c := by
  rw [numberOf, List.foldl_append]
  rfl

theorem lettersOf_zero : lettersOf 0 = [] := by
  rw [lettersOf, dif_pos rfl]

theorem lettersOf_of_pos {n : Nat} (h : 0 < n) :
    lettersOf n = lettersOf ((n - 1) / 26) ++ [letter ((n - 1) % 26)] := by
  rw [lettersOf, dif_neg (Nat.ne_of_gt h)]

theorem lettersOf_ne_nil {n : Nat} (h : 0 < n) : lettersOf n ≠ [] := by
  rw [lettersOf_of_pos h]
  exact List.concat_ne_nil _ _

theorem isLetter_of_mem_lettersOf {n : Nat} {c : Char} (h : c ∈ lettersOf n) :
    isLetter c = true := by
  fun_induction lettersOf n with
  | case1 => exact absurd h List.not_mem_nil
  | case2 n hn ih =>
    rcases List.mem_append.mp h with h | h
    · exact ih h
    · rw [List.mem_singleton.mp h]
      exact isLetter_letter (Nat.mod_lt _ (by decide))

/-- A number is read back from its letters. -/
theorem numberOf_lettersOf (n : Nat) : numberOf (lettersOf n) = n := by
  fun_induction lettersOf n with
  | case1 => rfl
  | case2 n hn ih =>
    rw [numberOf_concat, ih, letterValue_letter (Nat.mod_lt _ (by decide))]
    omega

/-- Letters are written again from their number, in upper case. -/
theorem lettersOf_numberOf {cs : List Char} (h : ∀ c ∈ cs, isLetter c = true) :
    lettersOf (numberOf cs) = cs.map Char.toUpper := by
  induction cs using List.reverseRecOn with
  | nil => exact lettersOf_zero
  | append_singleton cs c ih =>
    have hc : isLetter c = true := h c (by simp)
    obtain ⟨hlow, hhigh⟩ := letterValue_bounds hc
    have hdiv : (26 * numberOf cs + letterValue c - 1) / 26 = numberOf cs := by omega
    have hmod : (26 * numberOf cs + letterValue c - 1) % 26 = letterValue c - 1 := by omega
    rw [numberOf_concat, lettersOf_of_pos (by omega), hdiv, hmod, ih fun d hd => h d (by simp [hd]),
      letter_letterValue hc, List.map_append]
    rfl

/-- Letters stand for a positive number, if there are any. -/
theorem numberOf_pos {cs : List Char} (h : ∀ c ∈ cs, isLetter c = true) (hne : cs ≠ []) :
    0 < numberOf cs := by
  rcases Nat.eq_zero_or_pos (numberOf cs) with hzero | hpos
  · have hletters := lettersOf_numberOf h
    rw [hzero, lettersOf_zero] at hletters
    exact absurd (List.map_eq_nil_iff.mp hletters.symm) hne
  · exact hpos

/-! ## Columns -/

theorem numberOf_letters (index : UInt32) : numberOf (letters index) = index.toNat + 1 :=
  numberOf_lettersOf _

theorem isLetter_of_mem_letters {index : UInt32} {c : Char} (h : c ∈ letters index) :
    isLetter c = true :=
  isLetter_of_mem_lettersOf h

theorem letters_ne_nil (index : UInt32) : letters index ≠ [] :=
  lettersOf_ne_nil (Nat.succ_pos _)

theorem letters_injective : Function.Injective letters := by
  intro i j h
  have hnumber := congrArg numberOf h
  rw [numberOf_letters, numberOf_letters] at hnumber
  exact UInt32.toNat_inj.mp (Nat.succ_inj.mp hnumber)

/-- Letters are read as the column whose number they stand for, if it is a word. -/
theorem ofLetters_eq_ok_iff {cs : List Char} {index : UInt32} : ofLetters cs = .ok index ↔
    cs ≠ [] ∧ (∀ c ∈ cs, isLetter c = true) ∧ numberOf cs < UInt32.size ∧
      numberOf cs = index.toNat + 1 := by
  unfold ofLetters
  split
  · next h =>
    obtain ⟨hne, hall, hword⟩ := h
    have hletters := List.all_eq_true.mp hall
    have hpos := numberOf_pos hletters hne
    have hindex : (UInt32.ofNat (numberOf cs - 1)).toNat = numberOf cs - 1 :=
      UInt32.toNat_ofNat_of_lt' (by omega)
    rw [Except.ok.injEq, ← UInt32.toNat_inj, hindex]
    constructor
    · intro heq
      exact ⟨hne, hletters, hword, by omega⟩
    · rintro ⟨-, -, -, heq⟩
      omega
  · next h =>
    refine ⟨nofun, fun ⟨hne, hletters, hword, _⟩ => ?_⟩
    exact absurd ⟨hne, List.all_eq_true.mpr hletters, hword⟩ h

/-- Every column but the last is read back from its letters. -/
theorem ofLetters_letters {index : UInt32} (h : index.toNat + 1 < UInt32.size) :
    ofLetters (letters index) = .ok index :=
  ofLetters_eq_ok_iff.mpr ⟨letters_ne_nil index, fun _ => isLetter_of_mem_letters,
    by rwa [numberOf_letters], numberOf_letters index⟩

/-- The number of the last column is no word, and its letters are refused. -/
theorem ofLetters_letters_last {index : UInt32} (h : index.toNat + 1 = UInt32.size) :
    ofLetters (letters index) = .error (.column (String.ofList (letters index))) := by
  refine if_neg fun hread => ?_
  have hword := hread.2.2
  rw [numberOf_letters, h] at hword
  exact Nat.lt_irrefl _ hword

end Spreadsheet.Column
