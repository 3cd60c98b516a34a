import Spreadsheet.Proofs.Counts

/-!
# Substrings

`LEFT`, `RIGHT`, `MID` and `REPLACE` count characters, from one on, and cut a count down to what is
there. On the characters of the text they are `take` and `drop`, and their laws are the laws of
these. Two things stand in between. A count or a position goes through a double, which moves it only
where it is past the end of every text of less than `2 ^ 53` characters (`CountsAs`). And a text
that is built must not be too long; what joins pieces in turn refuses a piece already if it is, so the
order of joining does not matter.

Results:
1. `left_whole`, `right_whole`, `middle_whole`, `replace_whole`: the functions as `take` and `drop`;
2. `refused_of_negative`, `refused_of_low`: what is refused, whatever the other arguments are;
3. `substrings_fit`: the laws between them, with the lengths of the results.
-/

namespace Spreadsheet

open Formula Number Value

/-! ## Counts next to the length of a text -/

namespace CountsAs

variable {k n c d : Nat} {cs : List Char}

theorem take_eq (h : CountsAs n c) (hcs : cs.length < 2 ^ 53) : cs.take c = cs.take n :=
  List.take_eq_take_iff.mpr (h.min_eq hcs.le)

theorem drop_sub_eq (h : CountsAs n c) (hcs : cs.length < 2 ^ 53) :
    cs.drop (cs.length - c) = cs.drop (cs.length - n) := by
  have := h.min_eq hcs.le
  have hsub : cs.length - c = cs.length - n := by omega
  rw [hsub]

/-- Nor does it make a difference for the characters before a position. -/
theorem min_pred_eq (h : CountsAs k c) {l : Nat} (hl : l < 2 ^ 53) :
    min (c - 1) l = min (k - 1) l := by
  have := h.eq_of_le
  have := h.le_of_le
  omega

theorem take_pred_eq (h : CountsAs k c) (hcs : cs.length < 2 ^ 53) :
    cs.take (c - 1) = cs.take (k - 1) :=
  List.take_eq_take_iff.mpr (h.min_pred_eq hcs)

theorem drop_pred_eq (h : CountsAs k c) (hcs : cs.length < 2 ^ 53) :
    cs.drop (c - 1) = cs.drop (k - 1) :=
  List.drop_eq_drop_iff.mpr (h.min_pred_eq hcs)

theorem drop_pred_add_eq (hk : CountsAs k c) (hn : CountsAs n d) (hcs : cs.length < 2 ^ 53) :
    cs.drop (c - 1 + d) = cs.drop (k - 1 + n) := by
  have := hk.min_pred_eq hcs
  have := hn.min_eq hcs.le
  rw [List.drop_eq_drop_iff]
  omega

end CountsAs

namespace Builtin

variable {limits : Limits} {s u : String}

/-! ## Integers as counts and positions -/

section

variable {p m : Int64} {b c : Int}

theorem left_int (hm : (Value.int m).toCount = .ok c) :
    left limits [.text s, .int m] =
      if c < 0 then .error .value else .text (String.ofList (s.toList.take c.toNat)) := by
  rw [left, strict_eq rfl]
  show Value.ofExcept (countArg [.text s, .int m] 1 1 >>= _) = _
  rw [countArg_eq rfl hm]
  split <;> rfl

theorem right_int (hm : (Value.int m).toCount = .ok c) :
    right limits [.text s, .int m] = if c < 0 then .error .value else
      .text (String.ofList (s.toList.drop (s.toList.length - c.toNat))) := by
  rw [right, strict_eq rfl]
  show Value.ofExcept (countArg [.text s, .int m] 1 1 >>= _) = _
  rw [countArg_eq rfl hm]
  split <;> rfl

/-- A position is looked at before a count; either may be refused. -/
theorem positionArg_bind_countArg {args : List Value} (hp : args[1]? = some (.int p))
    (hb : (Value.int p).toCount = .ok b) (hm : args[2]? = some (.int m))
    (hc : (Value.int m).toCount = .ok c) (body : Nat → Nat → Except CellError Value) :
    (do
      let start ← positionArg args 1
      let n ← countArg args 2 0
      body start n) =
    if b < 1 ∨ c < 0 then .error .value else body (b - 1).toNat c.toNat := by
  rw [positionArg_eq hp hb, countArg_eq hm hc]
  by_cases hlow : b < 1
  · rw [if_pos hlow, if_pos (Or.inl hlow)]
    rfl
  · rw [if_neg hlow]
    by_cases hneg : c < 0
    · rw [if_pos hneg, if_pos (Or.inr hneg)]
      rfl
    · rw [if_neg hneg, if_neg (not_or_intro hlow hneg)]
      rfl

theorem middle_int (hb : (Value.int p).toCount = .ok b) (hc : (Value.int m).toCount = .ok c) :
    middle limits [.text s, .int p, .int m] = if b < 1 ∨ c < 0 then .error .value else
      .text (String.ofList ((s.toList.drop (b - 1).toNat).take c.toNat)) := by
  rw [middle, strict_eq rfl]
  refine (congrArg Value.ofExcept (positionArg_bind_countArg rfl hb rfl hc _)).trans ?_
  split <;> rfl

theorem replace_int (hb : (Value.int p).toCount = .ok b) (hc : (Value.int m).toCount = .ok c) :
    replace limits [.text s, .int p, .int m, .text u] = if b < 1 ∨ c < 0 then .error .value else
      .ofExcept (built limits (s.toList.take (b - 1).toNat ++ u.toList ++
        s.toList.drop ((b - 1).toNat + c.toNat))) := by
  rw [replace, strict_eq rfl]
  refine (congrArg Value.ofExcept (positionArg_bind_countArg rfl hb rfl hc _)).trans ?_
  split <;> rfl

end

/-! ## Natural numbers as counts and positions -/

section

variable {k n : Nat}

theorem length_toList_lt (hs : s.length < 2 ^ 53) : s.toList.length < 2 ^ 53 :=
  String.length_toList.trans_lt hs

theorem left_whole (hs : s.length < 2 ^ 53) (hn : n < 2 ^ 63) :
    left limits [.text s, whole n] = .text (String.ofList (s.toList.take n)) := by
  obtain ⟨c, hc, hcount⟩ := exists_count hn
  rw [whole, left_int hc, if_neg (Int.natCast_nonneg c).not_gt, Int.toNat_natCast,
    hcount.take_eq (length_toList_lt hs)]

theorem right_whole (hs : s.length < 2 ^ 53) (hn : n < 2 ^ 63) :
    right limits [.text s, whole n] = .text (String.ofList (s.toList.drop (s.length - n))) := by
  obtain ⟨c, hc, hcount⟩ := exists_count hn
  rw [whole, right_int hc, if_neg (Int.natCast_nonneg c).not_gt, Int.toNat_natCast,
    hcount.drop_sub_eq (length_toList_lt hs), String.length_toList]

/-- What is read as the position `k` and the count `n` is in order. -/
theorem exists_position_count (hk : 1 ≤ k) (hk' : k < 2 ^ 63) (hn : n < 2 ^ 63) :
    ∃ c d : Nat, (whole k).toCount = .ok (c : Int) ∧ CountsAs k c ∧
      (whole n).toCount = .ok (d : Int) ∧ CountsAs n d ∧ ¬((c : Int) < 1 ∨ (d : Int) < 0) ∧
      ((c : Int) - 1).toNat = c - 1 := by
  obtain ⟨c, hc, hposition⟩ := exists_count hk'
  obtain ⟨d, hd, hcount⟩ := exists_count hn
  have := hposition.pos hk
  exact ⟨c, d, hc, hposition, hd, hcount, by omega, by omega⟩

theorem middle_whole (hs : s.length < 2 ^ 53) (hk : 1 ≤ k) (hk' : k < 2 ^ 63) (hn : n < 2 ^ 63) :
    middle limits [.text s, whole k, whole n] =
      .text (String.ofList ((s.toList.drop (k - 1)).take n)) := by
  obtain ⟨c, d, hc, hposition, hd, hcount, hvalid, hpred⟩ := exists_position_count hk hk' hn
  have hrest := (List.drop_sublist (k - 1) s.toList).length_le.trans_lt (length_toList_lt hs)
  rw [whole, whole, middle_int hc hd, if_neg hvalid, hpred, Int.toNat_natCast,
    hposition.drop_pred_eq (length_toList_lt hs), hcount.take_eq hrest]

theorem replace_whole (hs : s.length < 2 ^ 53) (hk : 1 ≤ k) (hk' : k < 2 ^ 63) (hn : n < 2 ^ 63) :
    replace limits [.text s, whole k, whole n, .text u] =
      .ofExcept (built limits (s.toList.take (k - 1) ++ u.toList ++
        s.toList.drop (k - 1 + n))) := by
  obtain ⟨c, d, hc, hposition, hd, hcount, hvalid, hpred⟩ := exists_position_count hk hk' hn
  rw [whole, whole, replace_int hc hd, if_neg hvalid, hpred, Int.toNat_natCast,
    hposition.take_pred_eq (length_toList_lt hs),
    hposition.drop_pred_add_eq hcount (length_toList_lt hs)]

theorem length_text : length limits [.text s] = whole s.length := by
  rw [← String.length_toList]
  rfl

end

/-! ## The laws -/

section

variable {k n : Nat}

theorem add_whole (h : k + n < 2 ^ 63) : add (whole k) (whole n) = whole (k + n) := by
  have hk := whole_isInteger (n := k) (by omega)
  have hn := whole_isInteger (n := n) (by omega)
  exact (exact_isInteger (· + ·) (· + ·) hk hn ⟨by omega, by omega⟩).eq_whole

theorem subtract_whole (h : n ≤ k) (hk : k < 2 ^ 63) :
    subtract (whole k) (whole n) = whole (k - n) := by
  have hn := whole_isInteger (n := n) (by omega)
  have hexact := exact_isInteger (· - ·) (· - ·) (whole_isInteger hk) hn ⟨by omega, by omega⟩
  exact IsInteger.eq_whole (by rwa [Int.ofNat_sub h])

/-- With the length as count, all from a position on. -/
theorem middle_length (hs : s.length < 2 ^ 53) (hk : 1 ≤ k) (hk' : k < 2 ^ 63) :
    middle limits [.text s, whole k, length limits [.text s]] =
      .text (String.ofList (s.toList.drop (k - 1))) := by
  have hall : (s.toList.drop (k - 1)).length ≤ s.length :=
    (List.drop_sublist _ _).length_le.trans String.length_toList.le
  rw [length_text, middle_whole hs hk hk' (hs.trans (by decide)), List.take_of_length_le hall]

theorem length_drop_lt (hs : s.length < 2 ^ 53) (k : Nat) :
    (String.ofList (s.toList.drop k)).length < 2 ^ 53 := by
  rw [String.length_ofList]
  exact (List.drop_sublist _ _).length_le.trans_lt (length_toList_lt hs)

theorem left_joined_middle (hs : s.length < 2 ^ 53) (hceiling : s.length ≤ limits.maxTextLength)
    (hn : n + 1 < 2 ^ 63) :
    Formula.joined limits (left limits [.text s, whole n])
      (middle limits [.text s, add (whole n) (whole 1), length limits [.text s]]) = .text s := by
  rw [add_whole hn, middle_length hs (Nat.le_add_left 1 n) hn, left_whole hs (by omega),
    joined_text, String.toList_ofList, Nat.add_sub_cancel, List.take_append_drop,
    ofExcept_built (String.length_toList.trans_le hceiling), String.ofList_toList]

theorem left_joined_right (hs : s.length < 2 ^ 53) (hceiling : s.length ≤ limits.maxTextLength)
    (hn : n ≤ s.length) :
    Formula.joined limits (left limits [.text s, subtract (length limits [.text s]) (whole n)])
      (right limits [.text s, whole n]) = .text s := by
  rw [length_text, subtract_whole hn (hs.trans (by decide)), left_whole hs (by omega),
    right_whole hs (by omega), joined_text, String.toList_ofList, List.take_append_drop,
    ofExcept_built (String.length_toList.trans_le hceiling), String.ofList_toList]

theorem right_of_length_le (hs : s.length < 2 ^ 53) (hn : s.length ≤ n) (hn' : n < 2 ^ 63) :
    right limits [.text s, whole n] = .text s := by
  rw [right_whole hs hn', Nat.sub_eq_zero_of_le hn, List.drop_zero, String.ofList_toList]

theorem middle_eq_left (hs : s.length < 2 ^ 53) (hk : 1 ≤ k) (hk' : k < 2 ^ 63) (hn : n < 2 ^ 63) :
    middle limits [.text s, whole k, whole n] =
      left limits [middle limits [.text s, whole k, length limits [.text s]], whole n] := by
  rw [middle_length hs hk hk', left_whole (length_drop_lt hs _) hn, String.toList_ofList,
    middle_whole hs hk hk' hn]

/-- A replacement that is too long is refused by the last joining, if not by the first. -/
theorem replace_eq_joined (hs : s.length < 2 ^ 53) (hk : 1 ≤ k) (hk' : k < 2 ^ 63)
    (hn : n + 1 < 2 ^ 63) :
    replace limits [.text s, whole k, whole n, .text u] =
      Formula.joined limits
        (Formula.joined limits (left limits [.text s, subtract (whole k) (whole 1)]) (.text u))
        (middle limits [middle limits [.text s, whole k, length limits [.text s]],
          add (whole n) (whole 1), length limits [.text s]]) := by
  have hrest : middle limits [.text (String.ofList (s.toList.drop (k - 1))), whole (n + 1),
      whole s.length] = .text (String.ofList (s.toList.drop (k - 1 + n))) := by
    have hall : (s.toList.drop (k - 1 + n)).length ≤ s.length :=
      (List.drop_sublist _ _).length_le.trans String.length_toList.le
    rw [middle_whole (length_drop_lt hs _) (Nat.le_add_left 1 n) hn (hs.trans (by decide)),
      String.toList_ofList, Nat.add_sub_cancel, List.drop_drop, List.take_of_length_le hall]
  rw [middle_length hs hk hk', add_whole hn, length_text, hrest, subtract_whole hk hk',
    left_whole hs (by omega), joined_text, joined_built, String.toList_ofList,
    replace_whole hs hk hk' (by omega)]

theorem replace_of_length_lt (hs : s.length < 2 ^ 53) (hk : s.length < k) (hk' : k < 2 ^ 63)
    (hn : n < 2 ^ 63) :
    replace limits [.text s, whole k, whole n, .text u] =
      Formula.joined limits (.text s) (.text u) := by
  have hlength := String.length_toList (s := s)
  rw [replace_whole hs (by omega) hk' hn, List.take_of_length_le (by omega),
    List.drop_of_length_le (by omega), List.append_nil]
  rfl

/-! ## Lengths -/

theorem length_left (hs : s.length < 2 ^ 53) (hn : n < 2 ^ 63) :
    length limits [left limits [.text s, whole n]] = whole (min n s.length) := by
  rw [left_whole hs hn, length_text, String.length_ofList, List.length_take, String.length_toList]

theorem length_right (hs : s.length < 2 ^ 53) (hn : n < 2 ^ 63) :
    length limits [right limits [.text s, whole n]] = whole (min n s.length) := by
  rw [right_whole hs hn, length_text, String.length_ofList, List.length_drop,
    String.length_toList, Nat.sub_sub_eq_min, Nat.min_comm]

theorem length_middle (hs : s.length < 2 ^ 53) (hk : 1 ≤ k) (hk' : k < 2 ^ 63) (hn : n < 2 ^ 63) :
    length limits [middle limits [.text s, whole k, whole n]] =
      whole (min n (s.length - (k - 1))) := by
  rw [middle_whole hs hk hk' hn, length_text, String.length_ofList, List.length_take,
    List.length_drop, String.length_toList]

theorem length_replace (hs : s.length < 2 ^ 53) (hk : 1 ≤ k) (hk' : k < 2 ^ 63) (hn : n < 2 ^ 63)
    (hceiling : min (k - 1) s.length + u.length + (s.length - (k - 1 + n)) ≤
      limits.maxTextLength) :
    length limits [replace limits [.text s, whole k, whole n, .text u]] =
      whole (min (k - 1) s.length + u.length + (s.length - (k - 1 + n))) := by
  have hlength : (s.toList.take (k - 1) ++ u.toList ++ s.toList.drop (k - 1 + n)).length =
      min (k - 1) s.length + u.length + (s.length - (k - 1 + n)) := by
    rw [List.length_append, List.length_append, List.length_take, List.length_drop,
      String.length_toList, String.length_toList]
  rw [replace_whole hs hk hk' hn, ofExcept_built (hlength.trans_le hceiling), length_text,
    String.length_ofList, hlength]

end

/-! ## Refusals -/

theorem refused_of_negative {n : Int64} (hn : n.toInt < 0) :
    left limits [.text s, .int n] = .error .value ∧
    right limits [.text s, .int n] = .error .value ∧
    ∀ (p : Int64) (u : String), middle limits [.text s, .int p, .int n] = .error .value ∧
      replace limits [.text s, .int p, .int n, .text u] = .error .value := by
  obtain ⟨c, hc, -, hneg⟩ := toCount_nonpos hn.le
  replace hneg := hneg hn
  refine ⟨?_, ?_, fun p u => ⟨?_, ?_⟩⟩
  · rw [left_int hc, if_pos hneg]
  · rw [right_int hc, if_pos hneg]
  · rw [middle_int (toCount_int p) hc, if_pos (Or.inr hneg)]
  · rw [replace_int (toCount_int p) hc, if_pos (Or.inr hneg)]

theorem refused_of_low {p : Int64} (hp : p.toInt < 1) (n : Int64) (u : String) :
    middle limits [.text s, .int p, .int n] = .error .value ∧
    replace limits [.text s, .int p, .int n, .text u] = .error .value := by
  obtain ⟨b, hb, hlow, -⟩ := toCount_nonpos (Int.le_of_lt_add_one hp)
  have hrefused : b < 1 := by omega
  constructor
  · rw [middle_int hb (toCount_int n), if_pos (Or.inl hrefused)]
  · rw [replace_int hb (toCount_int n), if_pos (Or.inl hrefused)]

/-- Words hold the sum of a position and a count. -/
theorem position_add_count_lt {args : List Value} {start n : Nat}
    (hstart : positionArg args 1 = .ok start) (hn : countArg args 2 0 = .ok n) :
    start + n < 2 ^ 64 := by
  have := positionArg_lt hstart
  have := countArg_lt hn (by decide)
  omega

end Builtin

/-! ## Main theorem -/

open Builtin in
/-- The laws of substrings of one text. Natural numbers stand for the integers that are not
negative, and a law that builds a text asks for a ceiling that allows it. -/
structure SubstringLaws (limits : Limits) (s : String) : Prop where
  /-- `LEFT(s, n) & MID(s, n + 1, LEN(s))` is the text. -/
  left_middle : ∀ n, n + 1 < 2 ^ 63 → s.length ≤ limits.maxTextLength →
    Formula.joined limits (left limits [.text s, whole n])
      (middle limits [.text s, add (whole n) (whole 1), length limits [.text s]]) = .text s
  /-- `LEFT(s, LEN(s) - j) & RIGHT(s, j)` is the text. -/
  left_right : ∀ j ≤ s.length, s.length ≤ limits.maxTextLength →
    Formula.joined limits (left limits [.text s, subtract (length limits [.text s]) (whole j)])
      (right limits [.text s, whole j]) = .text s
  /-- `RIGHT(s, n)` is the text from its length on. -/
  right_all : ∀ n, s.length ≤ n → n < 2 ^ 63 → right limits [.text s, whole n] = .text s
  /-- `MID(s, k, n)` is `LEFT(MID(s, k, LEN(s)), n)`. -/
  middle_eq : ∀ k n, 1 ≤ k → k < 2 ^ 63 → n < 2 ^ 63 →
    middle limits [.text s, whole k, whole n] =
      left limits [middle limits [.text s, whole k, length limits [.text s]], whole n]
  /-- `REPLACE(s, k, n, u)` is `LEFT(s, k - 1) & u & MID(MID(s, k, LEN(s)), n + 1, LEN(s))`, also
  where that is too long. -/
  replace_eq : ∀ u k n, 1 ≤ k → k < 2 ^ 63 → n + 1 < 2 ^ 63 →
    replace limits [.text s, whole k, whole n, .text u] =
      Formula.joined limits
        (Formula.joined limits (left limits [.text s, subtract (whole k) (whole 1)]) (.text u))
        (middle limits [middle limits [.text s, whole k, length limits [.text s]],
          add (whole n) (whole 1), length limits [.text s]])
  /-- Past the end the new text is appended. -/
  replace_past : ∀ u k n, s.length < k → k < 2 ^ 63 → n < 2 ^ 63 →
    replace limits [.text s, whole k, whole n, .text u] = Formula.joined limits (.text s) (.text u)
  length_left : ∀ n < 2 ^ 63, length limits [left limits [.text s, whole n]] =
    whole (min n s.length)
  length_right : ∀ n < 2 ^ 63, length limits [right limits [.text s, whole n]] =
    whole (min n s.length)
  length_middle : ∀ k n, 1 ≤ k → k < 2 ^ 63 → n < 2 ^ 63 →
    length limits [middle limits [.text s, whole k, whole n]] =
      whole (min n (s.length - (k - 1)))
  length_replace : ∀ u k n, 1 ≤ k → k < 2 ^ 63 → n < 2 ^ 63 →
    min (k - 1) s.length + u.length + (s.length - (k - 1 + n)) ≤ limits.maxTextLength →
    length limits [replace limits [.text s, whole k, whole n, .text u]] =
      whole (min (k - 1) s.length + u.length + (s.length - (k - 1 + n)))
  /-- No length of a text in memory is too great for an integer. -/
  length_text : length limits [.text s] = whole s.length ∧ ∀ n < 2 ^ 63, (whole n).IsInteger n
  /-- The end of a piece is never too great for a word, whatever the arguments are. -/
  end_lt : ∀ args start n, positionArg args 1 = .ok start → countArg args 2 0 = .ok n →
    start + n < 2 ^ 64
  /-- A negative count is refused. -/
  negative : ∀ n : Int64, n.toInt < 0 →
    left limits [.text s, .int n] = .error .value ∧
    right limits [.text s, .int n] = .error .value ∧
    ∀ (p : Int64) (u : String), middle limits [.text s, .int p, .int n] = .error .value ∧
      replace limits [.text s, .int p, .int n, .text u] = .error .value
  /-- So is a position before the first. -/
  low : ∀ p : Int64, p.toInt < 1 → ∀ (n : Int64) (u : String),
    middle limits [.text s, .int p, .int n] = .error .value ∧
    replace limits [.text s, .int p, .int n, .text u] = .error .value

open Builtin in
/-- The functions of substrings fit together on every text of less than `2 ^ 53` characters,
whatever characters they are. -/
theorem substrings_fit (limits : Limits) {s : String} (hs : s.length < 2 ^ 53) :
    SubstringLaws limits s where
  left_middle _ hn hceiling := left_joined_middle hs hceiling hn
  left_right _ hj hceiling := left_joined_right hs hceiling hj
  right_all _ hn hn' := right_of_length_le hs hn hn'
  middle_eq _ _ hk hk' hn := middle_eq_left hs hk hk' hn
  replace_eq _ _ _ hk hk' hn := replace_eq_joined hs hk hk' hn
  replace_past _ _ _ hk hk' hn := replace_of_length_lt hs hk hk' hn
  length_left _ hn := Builtin.length_left hs hn
  length_right _ hn := Builtin.length_right hs hn
  length_middle _ _ hk hk' hn := Builtin.length_middle hs hk hk' hn
  length_replace _ _ _ hk hk' hn hceiling := Builtin.length_replace hs hk hk' hn hceiling
  length_text := ⟨Builtin.length_text, fun _ => whole_isInteger⟩
  end_lt _ _ _ := position_add_count_lt
  negative _ hn := refused_of_negative hn
  low _ hp := refused_of_low hp

open Builtin in
/-- One of the characters takes two bytes, and one of the counts is greater than any length. -/
theorem substrings_fit_accented :
    let s := "naïve"
    Formula.joined {} (left {} [.text s, whole 2])
      (middle {} [.text s, add (whole 2) (whole 1), length {} [.text s]]) = .text s ∧
    length {} [replace {} [.text s, whole 3, whole 1, .text "ij"]] = whole 6 ∧
    right {} [.text s, whole (2 ^ 60)] = .text s ∧
    left {} [.text s, .int (-1)] = .error .value := by
  have h := substrings_fit {} (s := "naïve") (by decide)
  exact ⟨h.left_middle 2 (by decide) (by decide),
    h.length_replace "ij" 3 1 (by decide) (by decide) (by decide) (by decide),
    h.right_all (2 ^ 60) (by decide) (by decide), (h.negative (-1) (by decide)).1⟩

end Spreadsheet
