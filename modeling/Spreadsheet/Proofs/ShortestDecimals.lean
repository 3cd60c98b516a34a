import Spreadsheet.Proofs.Decimals

/-!
# Shortest decimals are read back

The search for the shortest decimal of a double looks at finer and finer grids, and stops at the first
one that has a decimal in the interval of the double. It does not look at more than 24 of them, so the
question is whether the last one is fine enough. It is: its step is less than a quarter of the distance
to the next double, as twenty decimal digits tell all doubles apart. What the search finds is then
read as the double.

Results:
1. `ten_zpow_le_two_zpow`: powers of ten below powers of two;
2. `inInterval_shortest`: the search ends in the interval;
3. `toFloat_shortest`: a double is read back from its shortest decimal.
-/

namespace Spreadsheet.Number

open Float.Model (UnpackedFloat)
open Float.Model.UnpackedFloat (Sign)

/-! ## Powers of ten and two -/

/-- A power of ten is below a power of two if its exponent is less than three tenths of the other, on
the safe side for negative exponents too. -/
theorem ten_zpow_le_two_zpow {a b : Int} (h : 10 * a ≤ 3 * b) (h' : 33 * a ≤ 10 * b) :
    (10 : ℚ) ^ a ≤ 2 ^ b := by
  have hone : (1 : ℚ) ≤ 2 := by norm_num
  have hten : (0 : ℚ) ≤ 10 ^ a := zpow_nonneg (by norm_num) a
  have htwo : (0 : ℚ) ≤ 2 ^ b := zpow_nonneg (by norm_num) b
  rcases le_total 0 a with ha | ha
  · -- a thousand is less than `2 ^ 10`
    refine (pow_le_pow_iff_left₀ hten htwo (by norm_num : 3 ≠ 0)).mp ?_
    calc ((10 : ℚ) ^ a) ^ 3 = ((10 : ℚ) ^ 3) ^ a := by rw [← zpow_natCast, zpow_comm, zpow_natCast]
      _ ≤ ((2 : ℚ) ^ 10) ^ a := zpow_le_zpow_left₀ ha (by norm_num) (by norm_num)
      _ = 2 ^ (10 * a) := by rw [← zpow_natCast, ← zpow_mul, Nat.cast_ofNat]
      _ ≤ 2 ^ (b * 3) := zpow_le_zpow_right₀ hone (by omega)
      _ = (2 ^ b) ^ 3 := by rw [zpow_mul, zpow_ofNat]
  · -- and `10 ^ 10` is more than `2 ^ 33`
    refine (pow_le_pow_iff_left₀ hten htwo (by norm_num : 10 ≠ 0)).mp ?_
    calc ((10 : ℚ) ^ a) ^ 10 = ((10 : ℚ) ^ 10) ^ a := by
          rw [← zpow_natCast, zpow_comm, zpow_natCast]
      _ ≤ ((2 : ℚ) ^ 33) ^ a := by
          have hinverse : ((2 : ℚ) ^ 33) ^ (-a) ≤ ((10 : ℚ) ^ 10) ^ (-a) :=
            zpow_le_zpow_left₀ (by omega) (by norm_num) (by norm_num)
          have hpos : (0 : ℚ) < ((2 : ℚ) ^ 33) ^ (-a) := zpow_pos (by norm_num) _
          rw [← neg_neg a, zpow_neg, zpow_neg _ (-a)]
          exact inv_anti₀ hpos hinverse
      _ = 2 ^ (33 * a) := by rw [← zpow_natCast, ← zpow_mul, Nat.cast_ofNat]
      _ ≤ 2 ^ (b * 10) := zpow_le_zpow_right₀ hone (by omega)
      _ = (2 ^ b) ^ 10 := by rw [zpow_mul, zpow_ofNat]

/-- A power of ten and a power of two in a unit that makes both of them integers. -/
theorem exists_unit (k j : Int) : ∃ unit : ℚ, 0 < unit ∧
    ((10 ^ k.toNat * 2 ^ (-j).toNat : Nat) : ℚ) = 10 ^ k * unit ∧
      ((2 ^ j.toNat * 10 ^ (-k).toNat : Nat) : ℚ) = 2 ^ j * unit := by
  refine ⟨2 ^ (-j).toNat * 10 ^ (-k).toNat, by positivity, ?_, ?_⟩
  · push_cast
    rw [pow_toNat (by norm_num : (10 : ℚ) ≠ 0) k]
    ring
  · push_cast
    rw [pow_toNat (by norm_num : (2 : ℚ) ≠ 0) j]
    ring

/-- Multiples that are compared in such a unit. -/
theorem scaled_le_iff {a b i j : Nat} {p q unit : ℚ} (hunit : 0 < unit) (hi : (i : ℚ) = p * unit)
    (hj : (j : ℚ) = q * unit) : a * i ≤ b * j ↔ (a * p : ℚ) ≤ b * q := by
  rw [← Nat.cast_le (α := ℚ), Nat.cast_mul, Nat.cast_mul, hi, hj, ← mul_assoc, ← mul_assoc,
    mul_le_mul_iff_of_pos_right hunit]

/-! ## The search -/

section

variable {tie : Tie} {m d : Nat} {e j k : Int}

theorem accepts_scale_iff {n : Neighbourhood} {scale x : Nat} :
    (n.scale scale).accepts x = true ↔ if n.closed then n.low * scale ≤ x ∧ x ≤ n.high * scale
      else n.low * scale < x ∧ x < n.high * scale := by
  obtain ⟨low, value, high, closed⟩ := n
  cases closed with
  | false => exact Bool.and_eq_true_iff.trans (and_congr decide_eq_true_iff decide_eq_true_iff)
  | true => exact Bool.and_eq_true_iff.trans (and_congr decide_eq_true_iff decide_eq_true_iff)

/-- A candidate lies in the interval. -/
theorem inInterval_of_candidate? (h : candidate? tie m e k = some d) :
    InInterval m e (d * 10 ^ k) := by
  have haccepts := accepts_scale_iff.mp (Neighbourhood.accepts_of_onGrid? h)
  obtain ⟨unit, hunit, hstep, hscale⟩ := exists_unit k (e - 2)
  simp only [Nat.pow_eq] at haccepts
  rw [InInterval]
  split at haccepts
  · next hclosed =>
    rw [scaled_le_iff hunit hscale hstep, scaled_le_iff hunit hstep hscale] at haccepts
    rw [if_pos hclosed]
    exact haccepts
  · next hopen =>
    rw [← not_le, ← not_le, scaled_le_iff hunit hstep hscale, scaled_le_iff hunit hscale hstep,
      not_le, not_le] at haccepts
    rw [if_neg hopen]
    exact haccepts

/-- On a fine grid there is a candidate. -/
theorem exists_candidate?_of_zpow_le (hm : 0 < m) (h : (10 : ℚ) ^ k ≤ 2 ^ (e - 2)) :
    ∃ d, candidate? tie m e k = some d := by
  obtain ⟨unit, hunit, hstep, hscale⟩ := exists_unit k (e - 2)
  refine exists_candidate?_of_le hm ?_
  rw [← Nat.cast_le (α := ℚ), hstep, hscale, mul_le_mul_iff_of_pos_right hunit]
  exact h

/-- A search that comes to a grid with a candidate ends with one. -/
theorem candidate?_searchGrids {fuel : Nat} (hd : candidate? tie m e j = some d) (hlow : k - fuel < j)
    (hhigh : j ≤ k) : candidate? tie m e (searchGrids tie m e fuel k).2 =
      some (searchGrids tie m e fuel k).1 := by
  induction fuel generalizing k with
  | zero => omega
  | succ fuel ih =>
    rw [searchGrids]
    split
    · next hk => exact hk
    · next hnone =>
      have hne : j ≠ k := by
        rintro rfl
        rw [hnone] at hd
        cases hd
      exact ih (by omega) (by omega)

/-- The shortest decimal of a double lies in its interval. -/
theorem inInterval_shortest (hm : 0 < m) (hbits : m < 2 ^ 53) (hlow : -1074 ≤ e) (hhigh : e ≤ 971) :
    InInterval m e ((shortest tie m e).1 * 10 ^ (shortest tie m e).2) := by
  have hlog : m.log2 < 53 := (Nat.log2_lt hm.ne').mpr hbits
  have hbound : leadingBound m e = (m.log2 + 1 + e) * 30103 / 100000 + 1 := rfl
  -- the last of the grids
  obtain ⟨d, hd⟩ : ∃ d, candidate? tie m e (leadingBound m e - 23) = some d :=
    exists_candidate?_of_zpow_le hm (ten_zpow_le_two_zpow (by omega) (by omega))
  exact inInterval_of_candidate? (candidate?_searchGrids hd (by omega) (by omega))

end

/-- A double is read back from its shortest decimal. -/
theorem toFloat_shortest {x : Float} {s : Sign} {m : Nat} {e : Int} {hm : 0 < m}
    (hx : parts x = .finite s m e hm) (tie : Tie) :
    (Decimal.mk (isNegative s) (shortest tie m e).1 (shortest tie m e).2).toFloat = x := by
  obtain ⟨hbits, hlow, hhigh⟩ := parts_bounds hx
  exact Decimal.toFloat_eq hx (inInterval_shortest hm hbits hlow hhigh)

end Spreadsheet.Number
