import Spreadsheet.Builtin.Text
import Spreadsheet.Formula.Operation
import Spreadsheet.Proofs.Words

/-!
# Counts and built texts

What the functions of text begin and end with. A count is a number like any other: an integer that
is given as one is first read as the nearest double, and the part of that above the point is the
count. Up to `2 ^ 53` every integer is a double, so it counts as itself. A greater one counts as
something that is no smaller than `2 ^ 53`, and no text is as long as that: where a count is only a
bound, the difference does not show.

Results:
1. `wholePart_ofInt64`: the whole part of an integer that was read as a double;
2. `Value.exists_count`: every natural number that is an integer of the sheet is read as a count,
   and how far it is the same;
3. `Value.toCount_nonpos`: the others are not read as positive counts;
4. `Builtin.countArg_eq`, `Builtin.positionArg_eq`: what a function makes of a count;
5. `Builtin.joined_built`: a text that is built step by step, and its length.
-/

namespace Spreadsheet

open Number

namespace Number

open Float.Model (UnpackedFloat)
open Float.Model.UnpackedFloat (Sign)

/-! ## Whole parts -/

/-- The part of `m · 2 ^ e` above the point. -/
def wholeMagnitude (m : Nat) (e : Int) : Nat :=
  if 0 ≤ e then m * 2 ^ e.toNat else m / 2 ^ (-e).toNat

section

variable {x : Float} {s : Sign} {m n : Nat} {e b : Int} {hm : 0 < m}

theorem wholePart_of_parts (h : parts x = .finite s m e hm) :
    wholePart x = s.apply (wholeMagnitude m e) := by
  rw [wholePart, h]
  cases s <;> rfl

/-- At the place of an integer of 53 digits the whole part is the integer. -/
theorem wholeMagnitude_of_place (h : Fits b (.finite s m e hm)) (hn : n ≠ 0) (hsmall : n ≤ 2 ^ 53)
    (hplace : (e + 1074) * 2 ^ 52 + m = integerPlace n) : wholeMagnitude m e = n := by
  obtain ⟨⟨hlt, hleading⟩, -, -⟩ := h
  rcases hsmall.lt_or_eq with hlog | rfl
  · replace hlog : n.log2 ≤ 52 := Nat.le_of_lt_succ ((Nat.log2_lt hn).mpr hlog)
    have hcancel : 2 ^ n.log2 * 2 ^ (52 - n.log2) = 2 ^ 52 := by
      rw [← Nat.pow_add, Nat.add_sub_cancel' hlog]
    have hlow : 2 ^ 52 ≤ n * 2 ^ (52 - n.log2) :=
      hcancel.symm.trans_le (Nat.mul_le_mul_right _ (Nat.log2_self_le hn))
    have hhigh : n * 2 ^ (52 - n.log2) < 2 ^ 53 := calc
      n * 2 ^ (52 - n.log2) < 2 ^ (n.log2 + 1) * 2 ^ (52 - n.log2) :=
        Nat.mul_lt_mul_of_pos_right Nat.lt_log2_self (Nat.two_pow_pos _)
      _ = 2 ^ 53 := by rw [Nat.pow_succ', Nat.mul_assoc, hcancel, ← Nat.pow_succ']
    rw [integerPlace_of_log2_le hn hlog] at hplace
    obtain ⟨rfl, rfl⟩ : e = n.log2 - 52 ∧ m = n * 2 ^ (52 - n.log2) := by
      generalize n * 2 ^ (52 - n.log2) = digits at *
      omega
    unfold wholeMagnitude
    split
    · obtain heq : n.log2 = 52 := by omega
      simp [heq]
    · have hshift : (-((n.log2 : Int) - 52)).toNat = 52 - n.log2 := by omega
      rw [hshift, Nat.mul_div_cancel _ (Nat.two_pow_pos _)]
  · have hpower : integerPlace (2 ^ 53) = 1076 * 2 ^ 52 := by decide +kernel
    rw [hpower] at hplace
    obtain ⟨rfl, rfl⟩ : e = 1 ∧ m = 2 ^ 52 := by omega
    rfl

/-- Behind the place of `2 ^ 53` the whole part is no smaller. -/
theorem le_wholeMagnitude (h : Fits b (.finite s m e hm))
    (hplace : 1076 * 2 ^ 52 ≤ (e + 1074) * 2 ^ 52 + (m : Int)) : 2 ^ 53 ≤ wholeMagnitude m e := by
  obtain ⟨⟨hlt, hleading⟩, -, -⟩ := h
  have he : 1 ≤ e := by omega
  rw [wholeMagnitude, if_pos (by omega)]
  calc 2 ^ 53 = 2 ^ 52 * 2 ^ 1 := rfl
    _ ≤ m * 2 ^ e.toNat :=
      Nat.mul_le_mul (by omega) (Nat.pow_le_pow_right (by decide) (by omega))

/-- Before the place of `2 ^ 63` it is no larger. -/
theorem wholeMagnitude_le (h : Fits b (.finite s m e hm))
    (hplace : (e + 1074) * 2 ^ 52 + (m : Int) ≤ 1086 * 2 ^ 52) : wholeMagnitude m e ≤ 2 ^ 63 := by
  obtain ⟨⟨hlt, hleading⟩, -, -⟩ := h
  unfold wholeMagnitude
  split
  · rcases (by omega : e = 11 ∧ m = 2 ^ 52 ∨ e ≤ 10) with ⟨rfl, rfl⟩ | he
    · decide
    · calc m * 2 ^ e.toNat ≤ 2 ^ 53 * 2 ^ 10 :=
            Nat.mul_le_mul hlt.le (Nat.pow_le_pow_right (by decide) (by omega))
        _ = 2 ^ 63 := rfl
  · exact (Nat.div_le_self _ _).trans (hlt.le.trans (by decide))

end

/-! ## Integers that are read as doubles -/

theorem natAbs_signedPlace (n : Int) : (signedPlace n).natAbs = integerPlace n.natAbs := by
  cases n with
  | ofNat n => rw [signedPlace, Int.natAbs_natCast, Int.ofNat_eq_natCast, Int.natAbs_natCast]
  | negSucc n => rw [signedPlace, Int.natAbs_neg, Int.natAbs_natCast, Int.natAbs_negSucc]

/-- How far from zero the double nearest to an integer is. -/
theorem integerPlace_of_parts {n : Int64} {s : Sign} {m : Nat} {e : Int} {hm : 0 < m}
    (h : parts (ofInt64 n) = .finite s m e hm) :
    (e + 1074) * 2 ^ 52 + (m : Int) = integerPlace n.toInt.natAbs := by
  obtain ⟨hfits, hplace⟩ := parts_ofInt64 n
  rw [h] at hfits hplace
  have hpos := place_finite_pos hfits
  rw [← natAbs_signedPlace, ← hplace]
  cases s <;> simp only [place, Sign.apply] <;> omega

/-- The whole part of the double nearest to an integer has the same sign and, up to `2 ^ 53`, the
same size. -/
theorem wholePart_ofInt64 (n : Int64) : ∃ k : Nat, wholePart (ofInt64 n) = n.toInt.sign * k ∧
    (n.toInt.natAbs ≤ 2 ^ 53 → k = n.toInt.natAbs) ∧ (2 ^ 53 ≤ n.toInt.natAbs → 2 ^ 53 ≤ k) ∧
    k ≤ 2 ^ 63 := by
  obtain ⟨hfits, hplace⟩ := parts_ofInt64 n
  obtain ⟨s, hs⟩ | ⟨s, m, e, hm, hparts⟩ := hfits.zero_or_finite
  · have hzero : n.toInt = 0 := by
      rw [← signedPlace_eq_zero_iff, ← hplace, hs]
      rfl
    refine ⟨0, ?_, fun _ => by rw [hzero]; rfl, fun h => ?_, Nat.zero_le _⟩
    · rw [wholePart, hs, hzero]
      rfl
    · rw [hzero] at h
      exact absurd h (by decide)
  · have hsize := integerPlace_of_parts hparts
    rw [hparts] at hfits hplace
    have hpos := place_finite_pos hfits
    have hne : n.toInt ≠ 0 := by
      rw [Ne, ← signedPlace_eq_zero_iff, ← hplace]
      cases s <;> simp only [place, Sign.apply] <;> omega
    refine ⟨wholeMagnitude m e, ?_, fun h => ?_, fun h => ?_, ?_⟩
    · rw [wholePart_of_parts hparts]
      have hneg := signedPlace_neg_iff (n := n.toInt)
      rw [← hplace] at hneg
      cases s with
      | positive =>
        have : ¬n.toInt < 0 := by
          rw [← hneg]
          exact hpos.not_gt
        rw [Int.sign_eq_one_of_pos (by omega), Int.one_mul]
        rfl
      | negative =>
        rw [Int.sign_eq_neg_one_of_neg (hneg.mp (Int.neg_neg_of_pos hpos)), Int.neg_one_mul]
        rfl
    · exact wholeMagnitude_of_place hfits (Int.natAbs_ne_zero.mpr hne) h hsize
    · have hpower : integerPlace (2 ^ 53) = 1076 * 2 ^ 52 := by decide +kernel
      have := integerPlace_mono h
      exact le_wholeMagnitude hfits (by omega)
    · have hpower : integerPlace (2 ^ 63) = 1086 * 2 ^ 52 := by decide +kernel
      have hlow := n.le_toInt
      have hhigh := n.toInt_lt
      have := integerPlace_mono (m := n.toInt.natAbs) (n := 2 ^ 63) (by omega)
      exact wholeMagnitude_le hfits (by omega)

end Number

/-! ## Counts -/

/-- The integer `n` counts as `c`: it is read as the nearest double, and only up to `2 ^ 53` is this
sure to be the integer itself. -/
structure CountsAs (n c : Nat) : Prop where
  lt : c < 2 ^ 63
  eq_of_le : n ≤ 2 ^ 53 → c = n
  le_of_le : 2 ^ 53 ≤ n → 2 ^ 53 ≤ c

namespace CountsAs

variable {n c l : Nat}

theorem pos (h : CountsAs n c) (hn : 1 ≤ n) : 1 ≤ c := by
  rcases Nat.le_total n (2 ^ 53) with hle | hle
  · rwa [h.eq_of_le hle]
  · exact (Nat.one_le_two_pow).trans (h.le_of_le hle)

/-- Next to a number of at most 53 digits it makes no difference. -/
theorem min_eq (h : CountsAs n c) (hl : l ≤ 2 ^ 53) : min c l = min n l := by
  rcases Nat.le_total n (2 ^ 53) with hle | hle
  · rw [h.eq_of_le hle]
  · have := h.le_of_le hle
    omega

end CountsAs

namespace Value

theorem isInf_ofInt64 (n : Int64) : (ofInt64 n).isInf = false := by
  show (parts (ofInt64 n)).isInf = false
  obtain ⟨s, h⟩ | ⟨s, m, e, hm, h⟩ := (parts_ofInt64 n).1.zero_or_finite <;> rw [h] <;> rfl

/-- Every integer is read as a count, by way of a double. -/
theorem toCount_int (n : Int64) :
    (Value.int n).toCount = .ok (min (wholePart (ofInt64 n)) Int64.maxValue.toInt) := by
  obtain ⟨k, hk, -, -, hle⟩ := wholePart_ofInt64 n
  have hmin : Int64.minValue.toInt = -2 ^ 63 := by decide
  have hmax : Int64.maxValue.toInt = 2 ^ 63 - 1 := by decide
  have hrange : ¬(wholePart (ofInt64 n) < Int64.minValue.toInt ∨
      Int64.maxValue.toInt + 1 < wholePart (ofInt64 n)) := by
    rw [hk, hmin, hmax]
    rcases Int.sign_trichotomy n.toInt with h | h | h <;> rw [h] <;> omega
  have hnumber : (Value.int n).toNumber = .ok (ofInt64 n) := rfl
  rw [toCount, hnumber]
  dsimp only [bind, Except.bind]
  rw [isInf_ofInt64, if_neg Bool.false_ne_true, if_neg hrange]
  rfl

theorem exists_count {n : Nat} (hn : n < 2 ^ 63) :
    ∃ c : Nat, (whole n).toCount = .ok (c : Int) ∧ CountsAs n c := by
  obtain ⟨k, hk, heq, hle, hlt⟩ := wholePart_ofInt64 (Int64.ofNat n)
  have hmax : Int64.maxValue.toInt = 2 ^ 63 - 1 := by decide
  rw [Int64.toInt_ofNat_of_lt hn] at hk heq hle
  rw [Int.natAbs_natCast] at heq hle
  refine ⟨min k (2 ^ 63 - 1), ?_, by omega, fun h => ?_, fun h => ?_⟩
  · rw [whole, toCount_int, hk, hmax]
    rcases Nat.eq_zero_or_pos n with rfl | hpos
    · obtain rfl := heq (Nat.zero_le _)
      rfl
    · rw [Int.sign_eq_one_of_pos (Int.natCast_pos.mpr hpos)]
      refine congrArg Except.ok ?_
      omega
  · have := heq h
    omega
  · have := hle h
    omega

/-- An integer that is not positive does not count as a positive one. -/
theorem toCount_nonpos {n : Int64} (hn : n.toInt ≤ 0) :
    ∃ c, (Value.int n).toCount = .ok c ∧ c ≤ 0 ∧ (n.toInt < 0 → c < 0) := by
  obtain ⟨k, hk, heq, hle, -⟩ := wholePart_ofInt64 n
  refine ⟨_, toCount_int n, ?_, fun hneg => ?_⟩
  · rcases hn.lt_or_eq with hneg | hzero
    · rw [hk, Int.sign_eq_neg_one_of_neg hneg]
      omega
    · rw [hk, hzero, Int.sign_zero]
      omega
  · have hpos : 0 < k := by
      rcases Nat.le_total n.toInt.natAbs (2 ^ 53) with h | h
      · rw [heq h]
        omega
      · exact (Nat.two_pow_pos 53).trans_le (hle h)
    rw [hk, Int.sign_eq_neg_one_of_neg hneg]
    omega

/-- A value that stands for one value has no other scalars. -/
theorem leaves_of_scalar : ∀ {v u : Value}, v.scalar = .ok u → v.leaves = [u]
  | .array [v], _, h => by
    rw [leaves, leavesOf, leavesOf, leaves_of_scalar (v := v) h, List.append_nil]
  | .array [], _, h | .array (_ :: _ :: _), _, h => nomatch h
  | .empty, _, h | .bool _, _, h | .int _, _, h | .float _, _, h | .text _, _, h
  | .error _, _, h => by
    cases h
    rfl

/-- What is read as a count is no error. -/
theorem firstError?_of_toCount {v : Value} {c : Int} (h : v.toCount = .ok c) :
    firstError? [v] = none := by
  cases hscalar : v.scalar with
  | error e =>
    rw [toCount, toNumber, hscalar] at h
    cases h
  | ok u =>
    rw [firstError?, leavesOf, leavesOf, leaves_of_scalar hscalar]
    cases u with
    | error e =>
      rw [toCount, toNumber, hscalar] at h
      cases h
    | _ => rfl

theorem lt_of_toCount {v : Value} {c : Int} (h : v.toCount = .ok c) : c < 2 ^ 63 := by
  have hmax : Int64.maxValue.toInt = 2 ^ 63 - 1 := by decide
  unfold toCount at h
  cases hx : v.toNumber with
  | error e =>
    rw [hx] at h
    cases h
  | ok x =>
    rw [hx] at h
    dsimp only [bind, Except.bind] at h
    split at h
    · cases h
    · split at h
      · cases h
      · cases h
        omega

end Value

/-! ## Arguments -/

namespace Builtin

variable {args : List Value} {i : Nat} {v : Value} {c : Int}

theorem strict_eq {body : Limits → List Value → Except CellError Value} {limits : Limits}
    (h : Value.firstError? args = none) :
    strict body limits args = .ofExcept (body limits args) := by
  rw [strict, h]

theorem arg_eq (h : args[i]? = some v) : arg args i = v := by
  rw [arg, h]
  rfl

theorem countArg_eq (h : args[i]? = some v) (hv : v.toCount = .ok c) (default : Nat) :
    countArg args i default = if c < 0 then .error .value else .ok c.toNat := by
  rw [countArg, h]
  dsimp only
  rw [hv]
  rfl

theorem positionArg_eq (h : args[i]? = some v) (hv : v.toCount = .ok c) :
    positionArg args i = if c < 1 then .error .value else .ok (c - 1).toNat := by
  rw [positionArg, arg_eq h, hv]
  rfl

/-- What is read as a count is a word. -/
theorem countArg_lt {default n : Nat} (h : countArg args i default = .ok n)
    (hdefault : default < 2 ^ 63) : n < 2 ^ 63 := by
  cases hv : args[i]? with
  | none =>
    rw [countArg, hv] at h
    cases h
    exact hdefault
  | some v =>
    cases hc : v.toCount with
    | error e =>
      rw [countArg, hv] at h
      dsimp only at h
      rw [hc] at h
      cases h
    | ok c =>
      have := Value.lt_of_toCount hc
      rw [countArg_eq hv hc] at h
      split at h <;> cases h
      omega

theorem positionArg_lt {start : Nat} (h : positionArg args i = .ok start) : start < 2 ^ 63 := by
  rw [positionArg] at h
  cases hc : (arg args i).toCount with
  | error e =>
    rw [hc] at h
    cases h
  | ok c =>
    have := Value.lt_of_toCount hc
    rw [hc] at h
    dsimp only [bind, Except.bind] at h
    split at h <;> cases h
    omega

/-! ## Texts that are built -/

variable {limits : Limits} {s : String} {cs rest : List Char}

theorem ofExcept_built (h : cs.length ≤ limits.maxTextLength) :
    Value.ofExcept (built limits cs) = .text (String.ofList cs) := by
  rw [built, if_pos h]
  rfl

theorem ofExcept_built_of_lt (h : limits.maxTextLength < cs.length) :
    Value.ofExcept (built limits cs) = .error .value := by
  rw [built, if_neg h.not_ge]
  rfl

theorem joined_text : Formula.joined limits (.text (String.ofList cs)) (.text s) =
    .ofExcept (built limits (cs ++ s.toList)) := by
  show Value.ofExcept (built limits ((String.ofList cs).toList ++ s.toList)) = _
  rw [String.toList_ofList]

/-- A text that is built in two steps is within the limit if both steps are. -/
theorem joined_built : Formula.joined limits (.ofExcept (built limits cs)) (.text s) =
    .ofExcept (built limits (cs ++ s.toList)) := by
  rcases Nat.lt_or_ge limits.maxTextLength cs.length with hlong | hfits
  · rw [ofExcept_built_of_lt hlong, ofExcept_built_of_lt]
    · rfl
    · rw [List.length_append]
      omega
  · rw [ofExcept_built hfits, joined_text]

end Builtin

end Spreadsheet
