import Spreadsheet.Proofs.Counts
import Spreadsheet.Proofs.Texts

/-!
# Repeating a text

A text can be repeated by a count, by copies of it as arguments or in a list, and by joining it to
itself over and over. The first compares a product of lengths with the limit before anything is
built, the next build the text and then measure it, and the last measures at each step. They agree,
since what is too long at one step is an error from there on, and a text within the limit was within
it at every step before.

Only the count is a number that is read: an integer of more than 53 binary digits is rounded first.
With a limit that high, the difference can be seen. The product is a 64-bit word, and one that is
too large for it counts as the largest. So the limit has to be less than that, or the length has to
be a word, to tell which of the two is greater.

Results:
1. `repeated_eq`: repetition by a count;
2. `concat_copies`, `joinTexts_copies`: copies, in whatever lists they stand;
3. `chain_eq`: a chain of copies;
4. `repeated_is_rounded`: a count that is rounded;
5. `repetitions_agree`: all ways together.
-/

namespace Spreadsheet

open Formula Number Value

/-- The text `n` times in a row, or an error if that is longer than the limit allows. -/
def repetition (limits : Limits) (n : Nat) (s : String) : Value :=
  if n * s.length ≤ limits.maxTextLength then
    .text (String.ofList (List.replicate n s.toList).flatten)
  else
    .error .value

/-- Whether a length exceeds the limit can be told from the word that it counts as. -/
def Limits.Measures (limits : Limits) (length : Nat) : Prop :=
  limits.maxTextLength < wordSize - 1 ∨ length < wordSize

theorem Limits.Measures.lt_iff {limits : Limits} {length : Nat} (h : limits.Measures length) :
    limits.maxTextLength < min length (wordSize - 1) ↔ limits.maxTextLength < length := by
  rw [lt_min_iff]
  rcases h with h | h
  · exact and_iff_left h
  · exact and_iff_left_of_imp fun hlt => hlt.trans_le (Nat.le_sub_one_of_lt h)

namespace Builtin

variable {limits : Limits} {s : String} {n : Nat}

theorem length_flatten_replicate (cs : List Char) (n : Nat) :
    (List.replicate n cs).flatten.length = n * cs.length := by
  rw [List.length_flatten, List.map_replicate, List.sum_replicate_nat]

theorem ofExcept_built_replicate :
    Value.ofExcept (built limits (List.replicate n s.toList).flatten) =
      repetition limits n s := by
  have hlength := length_flatten_replicate s.toList n
  rw [String.length_toList] at hlength
  unfold repetition
  split
  · next hfits => exact ofExcept_built (hlength.trans_le hfits)
  · next hlong => exact ofExcept_built_of_lt (hlength ▸ Nat.lt_of_not_le hlong)

/-! ## All at once -/

theorem repetition_empty (n : Nat) : repetition limits n "" = .text "" := by
  have hflatten : (List.replicate n "".toList).flatten = [] :=
    List.flatten_eq_nil_iff.mpr fun _ h => (List.mem_replicate.mp h).2
  rw [← ofExcept_built_replicate, hflatten]
  exact ofExcept_built (Nat.zero_le _)

/-- The number of repetitions is whatever the argument counts as. -/
theorem repeated_eq {v : Value} (hv : v.toCount = .ok (n : Int))
    (h : limits.Measures (n * s.length)) :
    repeated limits [.text s, v] = repetition limits n s := by
  have hclean : firstError? [.text s, v] = none := firstError?_of_toCount hv
  have hcount : countArg [.text s, v] 1 0 = .ok n := by
    rw [countArg_eq rfl hv, if_neg (Int.natCast_nonneg n).not_gt, Int.toNat_natCast]
  rw [repeated, strict_eq hclean]
  show Value.ofExcept (countArg [.text s, v] 1 0 >>= _) = _
  rw [hcount]
  show Value.ofExcept (if limits.maxTextLength < min (s.toList.length * n) (wordSize - 1) then _ else
    if s.toList = [] then _ else _) = _
  rw [String.length_toList, Nat.mul_comm, if_congr h.lt_iff rfl rfl]
  by_cases hlong : limits.maxTextLength < n * s.length
  · rw [if_pos hlong, repetition, if_neg hlong.not_ge]
    rfl
  · rw [if_neg hlong]
    by_cases hempty : s.toList = []
    · obtain rfl := String.toList_eq_nil_iff.mp hempty
      rw [if_pos hempty, repetition_empty]
      rfl
    · rw [if_neg hempty, repetition, if_pos (Nat.le_of_not_lt hlong)]
      rfl

theorem measures_empty (n : Nat) : limits.Measures (n * "".length) :=
  .inr (by rw [show "".length = 0 from rfl, Nat.mul_zero]; decide)

/-- An integer counts as itself where it may matter for the ceiling. -/
theorem repeated_whole (hn : n < 2 ^ 63)
    (h : n ≤ 2 ^ 53 ∧ limits.Measures (n * s.length) ∨ limits.maxTextLength < 2 ^ 53 ∨ s = "") :
    repeated limits [.text s, whole n] = repetition limits n s := by
  obtain ⟨c, hc, hcount⟩ := exists_count hn
  rcases h with ⟨hsmall, hmeasures⟩ | hceiling | rfl
  · rw [hcount.eq_of_le hsmall] at hc
    exact repeated_eq hc hmeasures
  · rw [repeated_eq hc (.inl (hceiling.trans (by decide)))]
    rcases Nat.le_total n (2 ^ 53) with hsmall | hlarge
    · rw [hcount.eq_of_le hsmall]
    · by_cases hempty : s = ""
      · rw [hempty, repetition_empty, repetition_empty]
      · have hlength : 1 ≤ s.length :=
          Nat.pos_of_ne_zero fun h => hempty (String.length_eq_zero_iff.mp h)
        have hc := Nat.mul_le_mul (hcount.le_of_le hlarge) hlength
        have hn := Nat.mul_le_mul hlarge hlength
        rw [repetition, repetition, if_neg (by omega), if_neg (by omega)]
  · rw [repeated_eq hc (measures_empty c), repetition_empty, repetition_empty]

/-! ## Copies as arguments -/

/-- Copies of a text, in whatever lists they stand. -/
def Copies (n : Nat) (s : String) (args : List Value) : Prop :=
  leavesOf args = List.replicate n (.text s)

theorem copies_replicate : Copies n s (List.replicate n (.text s)) := by
  refine leavesOf_of_isScalar fun v hv => ?_
  obtain ⟨-, rfl⟩ := List.mem_replicate.mp hv
  rintro cells ⟨⟩

theorem copies_array : Copies n s [.array (List.replicate n (.text s))] := by
  rw [Copies, leavesOf, leaves, leavesOf, List.append_nil]
  exact copies_replicate

theorem Copies.map_display {args : List Value} (h : Copies n s args) :
    (leavesOf args).map (fun v => v.display.toList) = List.replicate n s.toList := by
  rw [h, List.map_replicate]
  rfl

theorem Copies.firstError? {args : List Value} (h : Copies n s args) :
    Value.firstError? args = none := by
  refine firstError?_of_leavesOf h fun v hv => ?_
  obtain ⟨-, rfl⟩ := List.mem_replicate.mp hv
  rfl

theorem concat_copies {args : List Value} (h : Copies n s args) :
    concat limits args = repetition limits n s := by
  rw [concat, strict_eq h.firstError?, List.flatMap_def, h.map_display, ofExcept_built_replicate]

theorem nil_intercalate (parts : List (List Char)) : ([] : List Char).intercalate parts =
    parts.flatten := by
  induction parts with
  | nil => rfl
  | cons part parts ih =>
    cases parts with
    | nil => simp
    | cons next rest =>
      rw [List.intercalate_cons_cons, ih, List.append_nil, List.flatten_cons (l := part)]

/-- Copies with nothing between them. -/
theorem joinTexts_copies {args : List Value} (h : Copies n s args) :
    joinTexts limits (.text "" :: .bool false :: args) = repetition limits n s := by
  have hclean : Value.firstError? (.text "" :: .bool false :: args) = none := h.firstError?
  rw [joinTexts, strict_eq hclean]
  show Value.ofExcept (built limits (List.intercalate []
    ((leavesOf args).map fun v => v.display.toList))) = _
  rw [h.map_display, nil_intercalate, ofExcept_built_replicate]

/-! ## One after the other -/

theorem foldl_joined (cs : List Char) (n : Nat) :
    (List.replicate n (.text s)).foldl (Formula.joined limits) (.ofExcept (built limits cs)) =
      .ofExcept (built limits (cs ++ (List.replicate n s.toList).flatten)) := by
  induction n generalizing cs with
  | zero => rw [List.replicate_zero, List.foldl_nil, List.replicate_zero, List.flatten_nil,
      List.append_nil]
  | succ n ih => rw [List.replicate_succ, List.foldl_cons, joined_built, ih, List.replicate_succ,
      List.flatten_cons, List.append_assoc]

/-- The first text of a chain is not built, but two of them are. -/
theorem chain_eq (n : Nat) :
    (List.replicate (n + 1) (.text s)).foldl (BinaryOp.concat.apply limits) (.text s) =
      repetition limits (n + 2) s := by
  have hfirst : Formula.joined limits (.text s) (.text s) =
    .ofExcept (built limits (s.toList ++ s.toList)) := rfl
  show (List.replicate (n + 1) (.text s)).foldl (Formula.joined limits) (.text s) = _
  rw [List.replicate_succ, List.foldl_cons, hfirst, foldl_joined, List.append_assoc,
    ← ofExcept_built_replicate, List.replicate_succ, List.replicate_succ, List.flatten_cons,
    List.flatten_cons]

end Builtin

/-! ## Main theorem -/

open Builtin in
/-- An integer of more than 53 binary digits need not be read as itself: this one is read as the
next one, and five letters as often as that no longer fit. -/
theorem repeated_is_rounded : ¬∀ (limits : Limits) (s : String) (k : Int64), 1 ≤ k.toInt →
    repeated limits [.text s, .int k] = repetition limits k.toInt.toNat s := by
  intro h
  -- `2 ^ 53 + 3` lies between two doubles, and the even one of them is the greater
  have hcount : (Value.int 9007199254740995).toCount = .ok ((9007199254740996 : Nat) : Int) := by
    rw [toCount_int]
    decide +kernel
  have hclaimed := h { maxTextLength := 45035996273704976 } "abcde" 9007199254740995 (by decide)
  have hnumber : (9007199254740995 : Int64).toInt.toNat = 9007199254740995 := by decide
  have hlength : "abcde".length = 5 := by decide
  rw [repeated_eq hcount (.inl (by decide)), hnumber, repetition, repetition, hlength,
    if_neg (by decide), if_pos (by decide)] at hclaimed
  cases hclaimed

open Builtin in
/-- All ways of repeating a text give the same: the `n`-fold text if its length is within the limit,
and an error otherwise. The copies may be arguments of `CONCAT` or of `TEXTJOIN` without a
delimiter, or stand in a list, or be joined one after the other. For `REPT` the number is what the
argument is read as, and the limit must be less than the greatest word or the length of the result a
word. An integer is read as itself up to `2 ^ 53`, and a greater one makes no difference for a limit
below that or an empty text. -/
theorem repetitions_agree (limits : Limits) (s : String) (n : Nat) :
    (∀ v : Value, v.toCount = .ok (n : Int) →
      limits.maxTextLength < 2 ^ 64 - 1 ∨ n * s.length < 2 ^ 64 →
      repeated limits [.text s, v] = repetition limits n s) ∧
    (n < 2 ^ 63 →
      n ≤ 2 ^ 53 ∧ (limits.maxTextLength < 2 ^ 64 - 1 ∨ n * s.length < 2 ^ 64) ∨
        limits.maxTextLength < 2 ^ 53 ∨ s = "" →
      repeated limits [.text s, whole n] = repetition limits n s) ∧
    (n < 2 ^ 63 → ∃ c, CountsAs n c ∧
      (limits.maxTextLength < 2 ^ 64 - 1 ∨ c * s.length < 2 ^ 64 →
        repeated limits [.text s, whole n] = repetition limits c s)) ∧
    concat limits (List.replicate n (.text s)) = repetition limits n s ∧
    concat limits [.array (List.replicate n (.text s))] = repetition limits n s ∧
    joinTexts limits (.text "" :: .bool false :: List.replicate n (.text s)) =
      repetition limits n s ∧
    joinTexts limits [.text "", .bool false, .array (List.replicate n (.text s))] =
      repetition limits n s ∧
    (2 ≤ n → (List.replicate (n - 1) (.text s)).foldl (BinaryOp.concat.apply limits) (.text s) =
      repetition limits n s) := by
  refine ⟨fun v hv h => repeated_eq hv h, repeated_whole, fun hn => ?_,
    concat_copies copies_replicate, concat_copies copies_array, joinTexts_copies copies_replicate,
    joinTexts_copies copies_array, fun hn => ?_⟩
  · obtain ⟨c, hc, hcount⟩ := exists_count hn
    exact ⟨c, hcount, repeated_eq hc⟩
  · obtain ⟨m, rfl⟩ := Nat.exists_eq_add_of_le' hn
    exact chain_eq m

open Builtin in
/-- Two letters three times are six characters, one too many for a limit of five. -/
theorem repetitions_agree_of_three :
    repeated { maxTextLength := 5 } [.text "né", whole 3] = .error .value ∧
    concat { maxTextLength := 6 } [.array (List.replicate 3 (.text "né"))] = .text "nénéné" := by
  obtain ⟨-, hrepeated, -⟩ := repetitions_agree { maxTextLength := 5 } "né" 3
  obtain ⟨-, -, -, -, harray, -⟩ := repetitions_agree { maxTextLength := 6 } "né" 3
  exact ⟨hrepeated (by decide) (.inl ⟨by decide, .inl (by decide)⟩), harray⟩

end Spreadsheet
