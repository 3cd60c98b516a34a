import Spreadsheet.Proofs.Nearest

/-!
# The numbers that are rounded to a double

Around each double there is an interval of numbers that have no double closer to them, with its ends
if the mantissa is even. Wherever rounding meets such a number, as a quotient of integers times a power
of two, the result is that double. Products and quotients of doubles are rounded in this way, so they
give a double as soon as their exact value lies in its interval.

Rounding first decides on an exponent, by the size of the number. Nearly always this is the exponent
of the double. The exception is a number just below a power of two: it is written with one more
digit, and then rounded up to the power.

Results:
1. `roundDiv_eq`: the quotients that are rounded to an integer;
2. `roundWithAccuracy_eq`: a number in the interval of a double is rounded to it;
3. `mul_eq`, `div_eq`: products and quotients with a value in the interval.
-/

namespace Spreadsheet.Number

open Float.Model (UnpackedFloat)
open Float.Model.UnpackedFloat (Sign)

/-! ## Places -/

/-- Numbers that fit are the same if they have the same place, unless it is zero. -/
theorem eq_of_place_eq {u v : UnpackedFloat} {b c : Int} (hu : Fits b u) (hv : Fits c v)
    (h : place u = place v) (hne : place v ≠ 0) : u = v := by
  obtain ⟨s, rfl⟩ | ⟨s, m, e, hm, rfl⟩ := hu.zero_or_finite
  · exact absurd h.symm hne
  · obtain ⟨t, rfl⟩ | ⟨t, n, f, hn, rfl⟩ := hv.zero_or_finite
    · exact absurd rfl hne
    · have hpos := place_finite_pos hu
      have hpos' := place_finite_pos hv
      obtain ⟨⟨hm, hmlow⟩, helow, -⟩ := hu
      obtain ⟨⟨hn, hnlow⟩, hflow, -⟩ := hv
      obtain ⟨rfl, hsum⟩ : s = t ∧ (e + 1074) * 2 ^ 52 + (m : Int) = (f + 1074) * 2 ^ 52 + n := by
        cases s <;> cases t <;> simp only [place, Sign.apply] at h <;> simp <;> omega
      obtain rfl : e = f := by omega
      obtain rfl : m = n := by omega
      rfl

/-! ## Intervals -/

section Interval

variable {m : Nat} {e : Int} {v : ℚ}

/-- The number is rounded to the double `m · 2 ^ e`. -/
def InInterval (m : Nat) (e : Int) (v : ℚ) : Prop :=
  if (interval m e).closed then
    (interval m e).low * 2 ^ (e - 2) ≤ v ∧ v ≤ (interval m e).high * 2 ^ (e - 2)
  else
    (interval m e).low * 2 ^ (e - 2) < v ∧ v < (interval m e).high * 2 ^ (e - 2)

theorem zpow_two_pos (k : Int) : (0 : ℚ) < 2 ^ k :=
  zpow_pos (by norm_num) k

theorem InInterval.bounds (h : InInterval m e v) :
    (interval m e).low * 2 ^ (e - 2) ≤ v ∧ v ≤ (interval m e).high * 2 ^ (e - 2) := by
  unfold InInterval at h
  split at h
  · exact h
  · exact ⟨h.1.le, h.2.le⟩

/-- The ends belong to the interval if the mantissa is even. -/
theorem InInterval.strict (h : InInterval m e v) : m % 2 = 0 ∨
    (interval m e).low * 2 ^ (e - 2) < v ∧ v < (interval m e).high * 2 ^ (e - 2) := by
  unfold InInterval at h
  split at h
  · next hclosed => exact .inl (of_decide_eq_true hclosed)
  · exact .inr h

/-- The double itself. -/
theorem inInterval_self (hm : 0 < m) (e : Int) : InInterval m e (m * 2 ^ e) := by
  have hvalue : (m * 2 ^ e : ℚ) = ((4 * m : Nat) : ℚ) * 2 ^ (e - 2) := by
    rw [zpow_sub₀ (by norm_num)]
    push_cast
    ring
  have hlow : (interval m e).low < 4 * m := by
    unfold interval
    dsimp only
    split <;> omega
  have hhigh : 4 * m < (interval m e).high := by
    change 4 * m < 4 * m + 2
    omega
  have hpos := zpow_two_pos (e - 2)
  have hbelow : ((interval m e).low : ℚ) * 2 ^ (e - 2) < m * 2 ^ e := by
    rw [hvalue]
    exact mul_lt_mul_of_pos_right (by exact_mod_cast hlow) hpos
  have habove : (m * 2 ^ e : ℚ) < (interval m e).high * 2 ^ (e - 2) := by
    rw [hvalue]
    exact mul_lt_mul_of_pos_right (by exact_mod_cast hhigh) hpos
  unfold InInterval
  split
  · exact ⟨hbelow.le, habove.le⟩
  · exact ⟨hbelow, habove⟩

theorem le_low (m : Nat) (e : Int) : (4 * m - 2 : ℚ) ≤ (interval m e).low := by
  have hle : 4 * m ≤ (interval m e).low + 2 := by
    unfold interval
    dsimp only
    split <;> omega
  have hcast : ((4 * m : Nat) : ℚ) ≤ ((interval m e).low + 2 : Nat) := by exact_mod_cast hle
  push_cast at hcast
  linarith

/-- The double below a power of two is half as far away. -/
theorem low_power (he : -1074 < e) : ((interval (2 ^ 52) e).low : ℚ) = 2 ^ 54 - 1 := by
  have hlow : (interval (2 ^ 52) e).low = 4 * 2 ^ 52 - 1 := if_pos ⟨rfl, he⟩
  rw [hlow]
  norm_num

theorem high_eq (m : Nat) (e : Int) : ((interval m e).high : ℚ) = 4 * m + 2 := by
  change ((4 * m + 2 : Nat) : ℚ) = _
  push_cast
  rfl

/-- All numbers in the interval are positive. -/
theorem InInterval.pos (h : InInterval m e v) (hm : 0 < m) : 0 < v := by
  have hmcast : (1 : ℚ) ≤ m := by exact_mod_cast hm
  exact (mul_pos (by linarith [le_low m e]) (zpow_two_pos (e - 2))).trans_le h.bounds.1

/-- The interval in units of `2 ^ (e - 2)`. -/
theorem InInterval.units {q : ℚ} {t : Int} (h : InInterval m e (q * 2 ^ t)) :
    ((interval m e).low ≤ q * 2 ^ (t - e + 2) ∧ q * 2 ^ (t - e + 2) ≤ 4 * m + 2) ∧
      (m % 2 = 0 ∨ (interval m e).low < q * 2 ^ (t - e + 2) ∧ q * 2 ^ (t - e + 2) < 4 * m + 2) := by
  have hscale : q * 2 ^ t = q * 2 ^ (t - e + 2) * 2 ^ (e - 2) := by
    rw [mul_assoc, ← zpow_add₀ (by norm_num)]
    congr 2
    ring
  have hunit := zpow_two_pos (e - 2)
  have hbounds := h.bounds
  have hstrict := h.strict
  rw [hscale, mul_le_mul_iff_of_pos_right hunit, mul_le_mul_iff_of_pos_right hunit,
    high_eq] at hbounds
  rw [hscale, mul_lt_mul_iff_of_pos_right hunit, mul_lt_mul_iff_of_pos_right hunit,
    high_eq] at hstrict
  exact ⟨hbounds, hstrict⟩

end Interval

/-! ## Rounding -/

section Rounding

open Float.Model.UnpackedFloat

/-- The quotients that are rounded to an integer are within one half of it. -/
theorem roundDiv_eq {a d m : Nat} (hd : 0 < d) (hlow : 2 * m * d ≤ 2 * a + d)
    (hhigh : 2 * a ≤ 2 * m * d + d)
    (htie : m % 2 = 0 ∨ 2 * m * d < 2 * a + d ∧ 2 * a < 2 * m * d + d) :
    roundDiv .even a d = m := by
  have hsplit := Nat.div_add_mod' a d
  have hrest := Nat.mod_lt a hd
  rw [Nat.mul_assoc] at hlow hhigh htie
  have hbelow : a / d ≤ m := by
    by_contra hlt
    have := Nat.mul_le_mul_right d (show m + 1 ≤ a / d by omega)
    rw [Nat.add_mul] at this
    omega
  have habove : m ≤ a / d + 1 := by
    by_contra hlt
    have := Nat.mul_le_mul_right d (show a / d + 2 ≤ m by omega)
    rw [Nat.add_mul] at this
    omega
  rw [roundDiv]
  generalize a / d = q at *
  generalize a % d = r at *
  rcases (show m = q ∨ m = q + 1 by omega) with rfl | rfl
  · split
    · omega
    · split
      · omega
      · rfl
  · rw [Nat.add_mul, Nat.one_mul] at hlow hhigh htie
    split
    · rfl
    · split
      · omega
      · omega

variable {a d m : Nat} {e t f : Int} {v : ℚ}

/-- The same in rational numbers. -/
theorem roundDiv_eq_of_quotient (hd : 0 < d) (hlow : (2 * m - 1 : ℚ) ≤ 2 * (a / d))
    (hhigh : 2 * (a / d) ≤ (2 * m + 1 : ℚ))
    (htie : m % 2 = 0 ∨ (2 * m - 1 : ℚ) < 2 * (a / d) ∧ 2 * (a / d) < (2 * m + 1 : ℚ)) :
    roundDiv .even a d = m := by
  have hpos : (0 : ℚ) < d := by exact_mod_cast hd
  rw [← mul_div_assoc, le_div_iff₀ hpos] at hlow
  rw [← mul_div_assoc, div_le_iff₀ hpos] at hhigh
  rw [← mul_div_assoc, lt_div_iff₀ hpos, div_lt_iff₀ hpos] at htie
  refine roundDiv_eq hd ?_ ?_ (htie.imp_right fun h => ⟨?_, ?_⟩)
  · exact_mod_cast (by linarith : (2 * m * d : ℚ) ≤ 2 * a + d)
  · exact_mod_cast (by linarith : (2 * a : ℚ) ≤ 2 * m * d + d)
  · exact_mod_cast (by linarith [h.1] : (2 * m * d : ℚ) < 2 * a + d)
  · exact_mod_cast (by linarith [h.2] : (2 * a : ℚ) < 2 * m * d + d)

/-- How many digits a quotient has that was divided by the right power of two. -/
theorem quotient_bounds (hd : 0 < d) (ht : t = max ((a / d).log2 + f - 52) (-1074)) (hf : f ≤ t) :
    (a / (d * 2 ^ (t - f).toNat : Nat) : ℚ) < 2 ^ 53 ∧
      ((2 ^ 52 : ℚ) ≤ a / (d * 2 ^ (t - f).toNat : Nat) ∨ t = -1074) := by
  have hstep : 0 < d * 2 ^ (t - f).toNat := Nat.mul_pos hd (Nat.two_pow_pos _)
  have hcast : (0 : ℚ) < (d * 2 ^ (t - f).toNat : Nat) := by exact_mod_cast hstep
  constructor
  · rw [div_lt_iff₀ hcast]
    have hlt : a / (d * 2 ^ (t - f).toNat) < 2 ^ 53 := by
      rw [← Nat.div_div_eq_div_mul]
      refine Nat.div_lt_of_lt_mul (Nat.lt_log2_self.trans_le ?_)
      rw [← Nat.pow_add]
      exact Nat.pow_le_pow_right (by decide) (by omega)
    exact_mod_cast (Nat.div_lt_iff_lt_mul hstep).mp hlt
  · by_cases hleast : t = -1074
    · exact .inr hleast
    · refine .inl ?_
      rw [le_div_iff₀ hcast]
      have hne : a / d ≠ 0 := by
        intro hzero
        rw [hzero, Nat.log2_zero] at ht
        omega
      have hle : 2 ^ 52 ≤ a / (d * 2 ^ (t - f).toNat) := by
        rw [← Nat.div_div_eq_div_mul, Nat.le_div_iff_mul_le (Nat.two_pow_pos _), ← Nat.pow_add]
        refine (Nat.pow_le_pow_right (by decide) ?_).trans (Nat.log2_self_le hne)
        omega
      exact_mod_cast (Nat.le_div_iff_mul_le hstep).mp hle

/-- The exponent is that of the double, or one less just below a power of two. -/
theorem exponent_of_inInterval {q : ℚ} (hm : m < 2 ^ 53) (hleading : 2 ^ 52 ≤ m ∨ e = -1074)
    (he : -1074 ≤ e) (ht : -1074 ≤ t) (hlt : q < 2 ^ 53) (hge : 2 ^ 52 ≤ q ∨ t = -1074)
    (hv : InInterval m e (q * 2 ^ t)) : t = e ∨ t = e - 1 ∧ m = 2 ^ 52 := by
  obtain ⟨⟨hlow, hhigh⟩, -⟩ := hv.units
  have hmcast : (m : ℚ) + 1 ≤ 2 ^ 53 := by exact_mod_cast hm
  have hlow' := le_low m e
  have hone : (1 : ℚ) ≤ 2 := by norm_num
  rcases lt_trichotomy t e with hlt' | heq | hgt
  · have hleading : 2 ^ 52 ≤ m := hleading.resolve_right (by omega)
    have hmcast' : (2 ^ 52 : ℚ) ≤ m := by exact_mod_cast hleading
    have hqpos : 0 < q := by
      by_contra hneg
      have := mul_nonpos_of_nonpos_of_nonneg (not_lt.mp hneg) (zpow_two_pos (t - e + 2)).le
      linarith
    by_cases hnext : t = e - 1
    · refine .inr ⟨hnext, ?_⟩
      by_contra hne
      have hmcast'' : (2 ^ 52 + 1 : ℚ) ≤ m := by
        exact_mod_cast Nat.lt_of_le_of_ne hleading (Ne.symm hne)
      have hshift : (2 : ℚ) ^ (t - e + 2) = 2 := by
        rw [hnext, show e - 1 - e + 2 = 1 by ring, zpow_one]
      rw [hshift] at hlow
      linarith
    · -- two exponents down the number is too small
      have hshift : (2 : ℚ) ^ (t - e + 2) ≤ 1 := zpow_le_one_of_nonpos₀ hone (by omega)
      have := mul_le_of_le_one_right hqpos.le hshift
      linarith
  · exact .inl heq
  · have hge : (2 ^ 52 : ℚ) ≤ q := hge.resolve_right (by omega)
    have hshift : (2 : ℚ) ^ (3 : Int) ≤ 2 ^ (t - e + 2) := zpow_le_zpow_right₀ hone (by omega)
    have := mul_le_mul hge hshift (by norm_num) (by linarith)
    norm_num at this hhigh hmcast
    linarith

/-- A number in the interval of a double has its mantissa, in units of its last digit. -/
theorem roundDiv_of_inInterval (hd : 0 < d) (hv : InInterval m e (a / d * 2 ^ e)) :
    roundDiv .even a d = m := by
  obtain ⟨⟨hlow, hhigh⟩, hstrict⟩ := hv.units
  have hlow' := le_low m e
  have hshift : (a / d * 2 ^ (e - e + 2) : ℚ) = 4 * (a / d) := by
    rw [sub_self, zero_add]
    norm_num
    ring
  rw [hshift] at hlow hhigh hstrict
  refine roundDiv_eq_of_quotient hd (by linarith) (by linarith)
    (hstrict.imp_right fun h => ⟨?_, ?_⟩)
  · linarith [h.1]
  · linarith [h.2]

/-- A number below a power of two, with one more digit, is rounded up to the power. -/
theorem roundDiv_of_inInterval_power (hd : 0 < d) (he : -1074 < e) (hlt : (a / d : ℚ) < 2 ^ 53)
    (hv : InInterval (2 ^ 52) e (a / d * 2 ^ (e - 1))) : roundDiv .even a d = 2 ^ 53 := by
  obtain ⟨⟨hlow, -⟩, -⟩ := hv.units
  have hshift : (a / d * 2 ^ (e - 1 - e + 2) : ℚ) = 2 * (a / d) := by
    rw [show e - 1 - e + 2 = 1 by ring, zpow_one]
    ring
  rw [hshift, low_power he] at hlow
  refine roundDiv_eq_of_quotient hd ?_ ?_ (.inl (by norm_num))
  · push_cast
    linarith
  · push_cast
    linarith

/-- A quotient in the interval of a double is rounded to the double. -/
theorem roundWithAccuracy_eq {s : Sign} {b : Int} {hm : 0 < m} (hfits : Fits b (.finite s m e hm))
    (hd : 0 < d) (ht : t = max ((a / d).log2 + f - 52) (-1074)) (hf : f ≤ t)
    (hv : InInterval m e (a / d * 2 ^ f)) :
    roundWithAccuracy .binary64 s (a / d) f (accuracyOfFraction (a % d) d) = .finite s m e hm := by
  obtain ⟨hresult, hplace⟩ := roundWithAccuracy_quotient s hd ht hf
  obtain ⟨hlt, hge⟩ := quotient_bounds hd ht hf
  have hpos := place_finite_pos hfits
  have hstep : 0 < d * 2 ^ (t - f).toNat := Nat.mul_pos hd (Nat.two_pow_pos _)
  have hscale : (a / d * 2 ^ f : ℚ) = a / (d * 2 ^ (t - f).toNat : Nat) * 2 ^ t := by
    have hsplit : (2 : ℚ) ^ t = 2 ^ (t - f).toNat * 2 ^ f := by
      rw [← zpow_natCast, ← zpow_add₀ (by norm_num)]
      congr 1
      omega
    have hne : (d : ℚ) ≠ 0 := by exact_mod_cast hd.ne'
    rw [hsplit]
    push_cast
    field_simp
  rw [hscale] at hv
  refine eq_of_place_eq hresult hfits (hplace.trans (congrArg s.apply ?_)) ?_
  · obtain ⟨⟨hmlt, hleading⟩, he, -⟩ := hfits
    rcases exponent_of_inInterval hmlt hleading he (by omega) hlt hge hv with rfl | ⟨rfl, rfl⟩
    · rw [roundDiv_of_inInterval hstep hv]
    · rw [roundDiv_of_inInterval_power hstep (by omega) hlt hv]
      push_cast
      ring
  · cases s <;> simp only [place, Sign.apply] <;> omega

end Rounding

/-! ## Products and quotients -/

section Operations

open Float.Model (Format totalExponent)
open Float.Model.UnpackedFloat

variable {s s₁ s₂ : Sign} {m m₁ m₂ : Nat} {e e₁ e₂ b : Int} {hm : 0 < m} {hm₁ : 0 < m₁}
  {hm₂ : 0 < m₂}

/-- A product is rounded to a double that has it in its interval, if its mantissas are wide enough. -/
theorem mul_eq (hfits : Fits b (.finite (s₁ * s₂) m e hm)) (hwide : 2 ^ 52 ≤ m₁ * m₂)
    (hv : InInterval m e ((m₁ * 2 ^ e₁) * (m₂ * 2 ^ e₂))) :
    UnpackedFloat.mul .binary64 (.finite s₁ m₁ e₁ hm₁) (.finite s₂ m₂ e₂ hm₂) =
      .finite (s₁ * s₂) m e hm := by
  have hlog : 52 ≤ (m₁ * m₂).log2 := (Nat.le_log2 (Nat.mul_pos hm₁ hm₂).ne').mpr hwide
  have hvalue : ((m₁ * 2 ^ e₁) * (m₂ * 2 ^ e₂) : ℚ) =
      (m₁ * m₂ : Nat) / (1 : Nat) * 2 ^ (e₁ + e₂) := by
    rw [zpow_add₀ (by norm_num)]
    push_cast
    ring
  have hround := roundWithAccuracy_eq (a := m₁ * m₂) (f := e₁ + e₂) hfits Nat.one_pos rfl
    (by rw [Nat.div_one]; omega) (hvalue ▸ hv)
  rwa [Nat.div_one, Nat.mod_one] at hround

/-- The exponent with which a quotient is computed, and the power of two that goes with it. -/
theorem divCore_eq (m₁ m₂ : Nat) (e₁ e₂ : Int) : ∃ (k : Nat) (f : Int), f + k = e₁ - e₂ ∧
    (f ≤ -1074 ∨ f + 53 ≤ m₁.log2 + e₁ - (m₂.log2 + e₂)) ∧
      divCore .binary64 m₁ e₁ m₂ e₂ =
        (m₁ * 2 ^ k / m₂, f, accuracyOfFraction (m₁ * 2 ^ k % m₂) m₂) := by
  obtain ⟨f, hf⟩ : ∃ f, f = min (e₁ - e₂) (Format.binary64.targetExponent
    (totalExponent m₁ e₁ - totalExponent m₂ e₂)) := ⟨_, rfl⟩
  have hcore : divCore .binary64 m₁ e₁ m₂ e₂ = (m₁ <<< (e₁ - e₂ - f).toNat / m₂, f,
      accuracyOfFraction (m₁ <<< (e₁ - e₂ - f).toNat % m₂) m₂) := by
    rw [hf]
    rfl
  rw [Nat.shiftLeft_eq] at hcore
  simp only [Format.targetExponent, totalExponent, Format.mantissaBits, Format.minExponent] at hf
  exact ⟨(e₁ - e₂ - f).toNat, f, by omega, by omega, hcore⟩

/-- A quotient is rounded to a double that has it in its interval. -/
theorem div_eq (hfits : Fits b (.finite (s₁ / s₂) m e hm))
    (hv : InInterval m e ((m₁ * 2 ^ e₁) / (m₂ * 2 ^ e₂))) :
    UnpackedFloat.div .binary64 (.finite s₁ m₁ e₁ hm₁) (.finite s₂ m₂ e₂ hm₂) =
      .finite (s₁ / s₂) m e hm := by
  obtain ⟨k, f, hsum, hsmall, hcore⟩ := divCore_eq m₁ m₂ e₁ e₂
  have hvalue : ((m₁ * 2 ^ e₁) / (m₂ * 2 ^ e₂) : ℚ) = (m₁ * 2 ^ k : Nat) / m₂ * 2 ^ f := by
    have hexponent : (2 : ℚ) ^ e₁ = 2 ^ k * 2 ^ f * 2 ^ e₂ := by
      rw [← zpow_natCast, ← zpow_add₀ (by norm_num), ← zpow_add₀ (by norm_num)]
      congr 1
      omega
    have hne : (m₂ : ℚ) ≠ 0 := by exact_mod_cast hm₂.ne'
    have hne' : (2 : ℚ) ^ e₂ ≠ 0 := (zpow_two_pos e₂).ne'
    rw [hexponent]
    push_cast
    field_simp
  -- unless the exponent is the least, the quotient has all the digits of a mantissa
  have hexponent : f ≤ max ((m₁ * 2 ^ k / m₂).log2 + f - 52) (-1074) := by
    rcases hsmall with h | h
    · exact h.trans (le_max_right _ _)
    · refine le_trans ?_ (le_max_left _ _)
      have hquotient : 2 ^ 52 ≤ m₁ * 2 ^ k / m₂ := by
        rw [Nat.le_div_iff_mul_le hm₂]
        calc 2 ^ 52 * m₂ ≤ 2 ^ 52 * 2 ^ (m₂.log2 + 1) := Nat.mul_le_mul_left _ Nat.lt_log2_self.le
          _ = 2 ^ (52 + (m₂.log2 + 1)) := (Nat.pow_add 2 _ _).symm
          _ ≤ 2 ^ (m₁.log2 + k) := Nat.pow_le_pow_right (by decide) (by omega)
          _ = 2 ^ m₁.log2 * 2 ^ k := Nat.pow_add 2 _ _
          _ ≤ m₁ * 2 ^ k := Nat.mul_le_mul_right _ (Nat.log2_self_le hm₁.ne')
      have := (Nat.le_log2 (by omega)).mpr hquotient
      omega
  rw [UnpackedFloat.div, hcore]
  exact roundWithAccuracy_eq hfits hm₂ rfl hexponent (hvalue ▸ hv)

end Operations

end Spreadsheet.Number
