import Spreadsheet.Proofs.Intervals
import Spreadsheet.Proofs.Readers

/-!
# Decimals that are read

The reader of decimals has two ways to a double. A coefficient of 53 digits is a double, and so are the
first powers of ten, so that one product or quotient of doubles is all there is to round. All other
decimals are a product or quotient of integers of any size, which is rounded once as well. Both
ways lead to the double in the interval of which the decimal lies.

Results:
1. `exists_powerOfTen`, `exists_toFloat_word`: integers that are doubles exactly;
2. `parts_ofScientific`: the double of a decimal without sign;
3. `Decimal.toFloat_eq`: a decimal is read as the double in the interval of which it lies.
-/

namespace Spreadsheet.Number

open Float.Model (UnpackedFloat)
open Float.Model.UnpackedFloat (Sign)

/-! ## Doubles by their parts -/

theorem eq_of_parts {x y : Float} (h : parts x = parts y) : x = y := by
  have hpack : ∀ z : Float, UnpackedFloat.pack .binary64 (parts z) = z.toModel.toBits.toBitVec :=
    fun z => UnpackedFloat.pack_unpack_of_valid z.toModel.valid
  obtain ⟨⟨⟨xs⟩, hx⟩⟩ := x
  obtain ⟨⟨⟨ys⟩, hy⟩⟩ := y
  obtain rfl : xs = ys := (hpack _).symm.trans ((congrArg _ h).trans (hpack _))
  rfl

/-! ## Exact integers -/

/-- The number is this integer exactly, and its mantissa has 53 digits. -/
def isExactly (n : Nat) : UnpackedFloat → Bool
  | .finite .positive m e _ => 2 ^ 52 ≤ m && m * 2 ^ e.toNat == n * 2 ^ (-e).toNat
  | _ => false

/-- The power of a base with the exponent cut off at zero. -/
theorem pow_toNat {base : ℚ} (hbase : base ≠ 0) (k : Int) :
    base ^ k.toNat = base ^ k * base ^ (-k).toNat := by
  rw [← zpow_natCast, ← zpow_natCast, ← zpow_add₀ hbase]
  congr 1
  omega

theorem exists_of_isExactly {n : Nat} {u : UnpackedFloat} (h : isExactly n u = true) :
    ∃ m e, ∃ hm : 0 < m, u = .finite .positive m e hm ∧ 2 ^ 52 ≤ m ∧ (m * 2 ^ e : ℚ) = n := by
  unfold isExactly at h
  split at h
  · next m e hm =>
    rw [Bool.and_eq_true, decide_eq_true_iff, beq_iff_eq] at h
    refine ⟨m, e, hm, rfl, h.1, ?_⟩
    have hcast : (m * 2 ^ e.toNat : ℚ) = n * 2 ^ (-e).toNat := by exact_mod_cast h.2
    rw [pow_toNat (by norm_num), ← mul_assoc] at hcast
    exact mul_right_cancel₀ (by positivity) hcast
  · exact nomatch h

theorem isExactly_powerOfTen : ∀ k : Fin Float.exactlyRepresentablePowersOfTen.size,
    isExactly (10 ^ k.val) (parts Float.exactlyRepresentablePowersOfTen[k]) = true := by
  decide +kernel

/-- The first powers of ten. -/
theorem exists_powerOfTen {k : Nat} (h : k < Float.exactlyRepresentablePowersOfTen.size) :
    ∃ m e, ∃ hm : 0 < m, parts Float.exactlyRepresentablePowersOfTen[k] =
      .finite .positive m e hm ∧ 2 ^ 52 ≤ m ∧ (m * 2 ^ e : ℚ) = (10 ^ k : Nat) :=
  exists_of_isExactly (isExactly_powerOfTen ⟨k, h⟩)

/-- A double at the place of an integer of 53 digits is this integer. -/
theorem exists_of_integerPlace {u : UnpackedFloat} {b : Int} {n : Nat} (hu : Fits b u)
    (hplace : place u = integerPlace n) (hpos : 0 < n) (hn : n < 2 ^ 53) :
    ∃ m e, ∃ hm : 0 < m, u = .finite .positive m e hm ∧ 2 ^ 52 ≤ m ∧ (m * 2 ^ e : ℚ) = n := by
  have hlog : n.log2 ≤ 52 := Nat.le_of_lt_succ ((Nat.log2_lt hpos.ne').mpr hn)
  have hm : 0 < n * 2 ^ (52 - n.log2) := Nat.mul_pos hpos (Nat.two_pow_pos _)
  have hlow : 2 ^ 52 ≤ n * 2 ^ (52 - n.log2) := calc
    2 ^ 52 = 2 ^ n.log2 * 2 ^ (52 - n.log2) := by rw [← Nat.pow_add, Nat.add_sub_cancel' hlog]
    _ ≤ n * 2 ^ (52 - n.log2) := Nat.mul_le_mul_right _ (Nat.log2_self_le hpos.ne')
  have hhigh : n * 2 ^ (52 - n.log2) < 2 ^ 53 := calc
    n * 2 ^ (52 - n.log2) < 2 ^ (n.log2 + 1) * 2 ^ (52 - n.log2) :=
      Nat.mul_lt_mul_of_pos_right Nat.lt_log2_self (Nat.two_pow_pos _)
    _ = 2 ^ 53 := by
      rw [← Nat.pow_add]
      congr 1
      omega
  have hinteger : Fits 0 (.finite .positive (n * 2 ^ (52 - n.log2)) (n.log2 - 52) hm) :=
    ⟨⟨hhigh, .inl hlow⟩, by omega, by omega⟩
  refine ⟨_, (n.log2 : Int) - 52, hm, ?_, hlow, ?_⟩
  · refine eq_of_place_eq hu hinteger ?_ (place_finite_pos hinteger).ne'
    rw [hplace, integerPlace_of_log2_le hpos.ne' hlog, place, Sign.apply]
    push_cast
    ring
  · have hpower : (2 : ℚ) ^ (52 - n.log2) * 2 ^ ((n.log2 : Int) - 52) = 1 := by
      rw [← zpow_natCast, ← zpow_add₀ (by norm_num), Nat.cast_sub hlog]
      simp
    push_cast
    rw [mul_assoc, hpower, mul_one]

/-- Words of 53 digits. -/
theorem exists_toFloat_word {n : Nat} (hpos : 0 < n) (hn : n < 2 ^ 53) :
    ∃ m e, ∃ hm : 0 < m, parts n.toUInt64.toFloat = .finite .positive m e hm ∧ 2 ^ 52 ≤ m ∧
      (m * 2 ^ e : ℚ) = n := by
  obtain ⟨hfits, hplace⟩ := ofUInt64_spec (hn.trans (by decide))
  have hunpack : parts n.toUInt64.toFloat = UnpackedFloat.ofUInt64 .binary64 n.toUInt64 :=
    parts_pack (hfits.mono (by decide))
  rw [hunpack]
  exact exists_of_integerPlace hfits hplace hpos hn

/-! ## Reading -/

section Reading

open Float.Model.UnpackedFloat

variable {n m : Nat} {k e b : Int} {hm : 0 < m} {v : ℚ}

theorem parts_mul {x y : Float} {u w z : UnpackedFloat} (hx : parts x = u) (hy : parts y = w)
    (h : UnpackedFloat.mul .binary64 u w = z) (hz : Fits 971 z) : parts (x * y) = z := by
  have hmul : x * y = ⟨Float.Model.pack (UnpackedFloat.mul .binary64 (parts x) (parts y))⟩ := rfl
  rw [hmul, hx, hy, h, parts_pack hz]

theorem parts_div {x y : Float} {u w z : UnpackedFloat} (hx : parts x = u) (hy : parts y = w)
    (h : UnpackedFloat.div .binary64 u w = z) (hz : Fits 971 z) : parts (x / y) = z := by
  have hdiv : x / y = ⟨Float.Model.pack (UnpackedFloat.div .binary64 (parts x) (parts y))⟩ := rfl
  rw [hdiv, hx, hy, h, parts_pack hz]

theorem zpow_ten_of_neg (hk : k < 0) : (10 : ℚ) ^ k = ((10 ^ k.natAbs : Nat) : ℚ)⁻¹ := by
  push_cast
  rw [← zpow_natCast, ← zpow_neg]
  congr 1
  omega

theorem zpow_ten_of_nonneg (hk : ¬k < 0) : (10 : ℚ) ^ k = (10 ^ k.natAbs : Nat) := by
  push_cast
  rw [← zpow_natCast]
  congr 1
  omega

variable (hn : 0 < n) (hfits : Fits 971 (.finite .positive m e hm))
  (hv : InInterval m e (n * 10 ^ k))
include hn hfits hv

/-- A decimal that is computed from a coefficient of 53 digits and one of the first powers of ten. -/
theorem parts_ofScientific_small (hsmall : n < 2 ^ 53 ∧ k.natAbs ≤ 22) :
    parts (Float.ofScientific n (k < 0) k.natAbs) = .finite .positive m e hm := by
  obtain ⟨m₁, e₁, hm₁, hword, hwide, hexact⟩ := exists_toFloat_word hn hsmall.1
  obtain ⟨m₂, e₂, hm₂, hpower, -, hten⟩ := exists_powerOfTen (k := k.natAbs)
    (Nat.lt_succ_of_le hsmall.2)
  rw [Float.ofScientific, dif_pos hsmall]
  by_cases hneg : k < 0
  · rw [zpow_ten_of_neg hneg, ← div_eq_mul_inv, ← hexact, ← hten] at hv
    rw [decide_eq_true hneg]
    exact parts_div hword hpower (div_eq hfits hv) hfits
  · rw [zpow_ten_of_nonneg hneg, ← hexact, ← hten] at hv
    rw [decide_eq_false hneg]
    exact parts_mul hword hpower
      (mul_eq hfits (hwide.trans (Nat.le_mul_of_pos_right m₁ hm₂)) hv) hfits

/-- A decimal without sign is read as the double in the interval of which it lies. -/
theorem parts_ofScientific (hlow : -(2048 + n.log2 : Int) ≤ k) (hhigh : k ≤ 2048) :
    parts (Float.ofScientific n (k < 0) k.natAbs) = .finite .positive m e hm := by
  by_cases hsmall : n < 2 ^ 53 ∧ k.natAbs ≤ 22
  · exact parts_ofScientific_small hn hfits hv hsmall
  · have hexponent : (if decide (k < 0) = true then Int.negOfNat k.natAbs else Int.ofNat k.natAbs) =
        k := by
      by_cases hneg : k < 0
      · rw [decide_eq_true hneg, if_pos rfl, Int.negOfNat_eq]
        exact (by omega : -((k.natAbs : Nat) : Int) = k)
      · rw [decide_eq_false hneg, if_neg Bool.false_ne_true]
        exact (by omega : ((k.natAbs : Nat) : Int) = k)
    rw [Float.ofScientific, dif_neg hsmall]
    dsimp only
    rw [hexponent]
    change parts ⟨Float.Model.pack (UnpackedFloat.ofScientific .binary64 n k)⟩ = _
    suffices hparts : UnpackedFloat.ofScientific .binary64 n k = .finite .positive m e hm by
      rw [hparts, parts_pack hfits]
    have hover : ¬k > 2 ^ Float.Model.Format.binary64.exponentBits := hhigh.not_gt
    have hunder : ¬k < -(2 ^ Float.Model.Format.binary64.exponentBits + (n.log2 : Int)) :=
      hlow.not_gt
    rw [UnpackedFloat.ofScientific, dif_neg hn.ne', if_neg hover, if_neg hunder]
    by_cases hneg : k < 0
    · have hvalue : (n * 10 ^ k : ℚ) = n * 2 ^ (0 : Int) / ((10 ^ k.natAbs : Nat) * 2 ^ (0 : Int)) := by
        rw [zpow_ten_of_neg hneg, zpow_zero, mul_one, mul_one, div_eq_mul_inv]
      have habs : (-k).toNat = k.natAbs := by omega
      rw [if_neg hneg.not_ge]
      simp only [habs]
      exact div_eq hfits (hvalue ▸ hv)
    · have hvalue : (n * 10 ^ k : ℚ) =
          (n <<< 53 : Nat) * 2 ^ (-53 : Int) * ((10 ^ k.natAbs : Nat) * 2 ^ (0 : Int)) := by
        have hone : ((2 ^ 53 : Nat) : ℚ) * 2 ^ (-53 : Int) = 1 := by norm_num
        rw [zpow_ten_of_nonneg hneg, zpow_zero, mul_one, Nat.shiftLeft_eq, Nat.cast_mul,
          mul_assoc (n : ℚ), hone, mul_one]
      have habs : k.toNat = k.natAbs := by omega
      rw [if_pos (not_lt.mp hneg)]
      simp only [habs]
      refine mul_eq hfits ?_ (hvalue ▸ hv)
      rw [Nat.shiftLeft_eq]
      calc 2 ^ 52 ≤ n * 2 ^ 53 := (Nat.pow_le_pow_right (by decide) (by decide)).trans
            (Nat.le_mul_of_pos_left _ hn)
        _ ≤ n * 2 ^ 53 * 10 ^ k.natAbs := Nat.le_mul_of_pos_right _ (Nat.pow_pos (by decide))

end Reading

section

variable {x : Float} {s : Sign} {n m : Nat} {k e : Int} {hm : 0 < m}

/-- The largest double is below this power of ten. -/
theorem two_pow_lt_ten_pow : 2 ^ 1024 < 10 ^ 309 := by
  decide +kernel

/-- A double is far from the bounds beyond which decimals are not computed. -/
theorem inInterval_bounds (hfits : Fits 971 (.finite s m e hm)) {v : ℚ} (hv : InInterval m e v) :
    (10 : ℚ) ^ (-(finestGrid : Int)) < v ∧ v < 10 ^ (309 : Int) := by
  obtain ⟨⟨hmlt, -⟩, he, hhigh⟩ := hfits
  obtain ⟨hlow, habove⟩ := hv.bounds
  have hone : (1 : ℚ) ≤ 2 := by norm_num
  have hmcast : (1 : ℚ) ≤ m := by exact_mod_cast hm
  have hmcast' : (m : ℚ) + 1 ≤ 2 ^ 53 := by exact_mod_cast hmlt
  have hpos := zpow_two_pos (e - 2)
  constructor
  · calc (10 : ℚ) ^ (-(finestGrid : Int)) = ((10 ^ finestGrid : Nat) : ℚ)⁻¹ := by
          rw [zpow_neg, zpow_natCast, Nat.cast_pow, Nat.cast_ofNat]
      _ ≤ ((2 ^ 1076 : Nat) : ℚ)⁻¹ :=
          inv_anti₀ (by positivity) (Nat.cast_le.mpr finestGrid_fine)
      _ = 2 ^ (-(1076 : Nat) : Int) := by
          rw [zpow_neg, zpow_natCast, Nat.cast_pow, Nat.cast_ofNat]
      _ ≤ 2 ^ (e - 2) := zpow_le_zpow_right₀ hone (by omega)
      _ < 2 * 2 ^ (e - 2) := by linarith
      _ ≤ (interval m e).low * 2 ^ (e - 2) :=
          mul_le_mul_of_nonneg_right (by linarith [le_low m e]) hpos.le
      _ ≤ v := hlow
  · calc v ≤ (4 * m + 2) * 2 ^ (e - 2) := high_eq m e ▸ habove
      _ ≤ 2 ^ (55 : Int) * 2 ^ (e - 2) :=
          mul_le_mul_of_nonneg_right (by norm_num at hmcast' ⊢; linarith) hpos.le
      _ = 2 ^ (55 + (e - 2)) := (zpow_add₀ (by norm_num) _ _).symm
      _ ≤ 2 ^ ((1024 : Nat) : Int) := zpow_le_zpow_right₀ hone (by omega)
      _ = (2 ^ 1024 : Nat) := by rw [zpow_natCast, Nat.cast_pow, Nat.cast_ofNat]
      _ < (10 ^ 309 : Nat) := Nat.cast_lt.mpr two_pow_lt_ten_pow
      _ = 10 ^ (309 : Int) := by rw [Nat.cast_pow, Nat.cast_ofNat, zpow_ofNat]

/-- How many digits a coefficient has. -/
theorem length_decimal_bounds (hn : 0 < n) :
    10 ^ ((decimal n).length - 1) ≤ n ∧ n < 10 ^ (decimal n).length := by
  have hpos : 0 < (decimal n).length := List.length_pos_iff.mpr (decimal_ne_nil n)
  constructor
  · by_contra hlt
    have hlength : (decimal n).length ≤ (decimal n).length - 1 := by
      rcases Nat.eq_zero_or_pos ((decimal n).length - 1) with hzero | hmore
      · rw [hzero] at hlt
        omega
      · exact length_decimal_le (not_le.mp hlt) hmore
    omega
  · exact (Nat.length_toDigits_le_iff (by decide) hpos).mp le_rfl

/-- A decimal is read as the double in the interval of which it lies. -/
theorem Decimal.toFloat_eq (hx : parts x = .finite s m e hm) (hv : InInterval m e (n * 10 ^ k)) :
    (Decimal.mk (isNegative s) n k).toFloat = x := by
  have hfits := parts_fits hx
  obtain ⟨hlow, hhigh⟩ := inInterval_bounds hfits hv
  have hten : (1 : ℚ) < 10 := by norm_num
  have hpower : (0 : ℚ) < 10 ^ k := zpow_pos (by norm_num) k
  have hn : 0 < n := by
    have hpos := hv.pos hm
    exact_mod_cast pos_of_mul_pos_left hpos hpower.le
  obtain ⟨hleast, hmost⟩ := length_decimal_bounds hn
  have hlength : 0 < (decimal n).length := List.length_pos_iff.mpr (decimal_ne_nil n)
  -- the leading digit is one of a double
  have hfirst : -(finestGrid : Int) < (decimal n).length + k := by
    rw [← zpow_lt_zpow_iff_right₀ hten]
    refine hlow.trans ?_
    rw [zpow_add₀ (by norm_num), zpow_natCast]
    exact mul_lt_mul_of_pos_right (by exact_mod_cast hmost) hpower
  have hlast : ((decimal n).length - 1 : Nat) + k < 309 := by
    rw [← zpow_lt_zpow_iff_right₀ hten]
    refine lt_of_le_of_lt ?_ hhigh
    rw [zpow_add₀ (by norm_num), zpow_natCast]
    exact mul_le_mul_of_nonneg_right (by exact_mod_cast hleast) hpower.le
  have hgrid : (finestGrid : Int) = 324 := rfl
  have hlog : (decimal n).length - 1 ≤ n.log2 :=
    (Nat.le_log2 hn.ne').mpr ((Nat.pow_le_pow_left (by decide) _).trans hleast)
  have hlow' : ¬((decimal n).length : Int) + k < -330 := by omega
  have hhigh' : ¬310 < ((decimal n).length : Int) + k := by omega
  have hmagnitude : parts (Float.ofScientific n (k < 0) k.natAbs) = .finite .positive m e hm :=
    parts_ofScientific hn hfits hv (by omega) (by omega)
  rw [Decimal.toFloat]
  dsimp only
  rw [decide_eq_false hn.ne', decide_eq_false hlow', Bool.false_or, if_neg Bool.false_ne_true,
    if_neg hhigh']
  refine eq_of_parts (Eq.trans ?_ hx.symm)
  cases s with
  | positive => exact hmagnitude
  | negative =>
    refine (parts_neg (hmagnitude ▸ hfits)).trans ?_
    rw [hmagnitude]
    rfl

end

end Spreadsheet.Number
