import Spreadsheet.Proofs.Doubles

/-!
# The doubles nearest to integers

Rounding a number keeps the digits that fit into a mantissa, and these count the steps to its place
from the last power of two. If they are rounded up to the next power of two the place is still right,
as each power is as many steps away from the last. So the place of a rounded integer is a sum of two
terms, and a larger integer does not get a smaller place.

The doubles of 64-bit integers are far from the largest, so that an operation on two of them does not
overflow.

Results:
1. `roundWithAccuracy_quotient`, `round_spec`: the place of a quotient or a number that is rounded;
2. `parts_ofInt64`: the place of a 64-bit integer;
3. `place_ofInt64_le`: larger integers are not rounded to smaller doubles;
4. `isFinite_neg`, `isFinite_add`, `isFinite_sub`, `isFinite_mul`: no operation on them overflows.
-/

namespace Spreadsheet.Number

open Float.Model (UnpackedFloat)
open Float.Model.UnpackedFloat (Sign ExtendedMantissa)

/-! ## Division with rounding -/

section RoundDiv

variable {tie : Tie} {a b c d : Nat}

theorem roundDiv_mono (hd : 0 < d) (h : a ≤ b) : roundDiv tie a d ≤ roundDiv tie b d := by
  have hdiv : a / d ≤ b / d := Nat.div_le_div_right h
  have hmod := Nat.mod_lt a hd
  rcases hdiv.lt_or_eq with hlt | heq
  · have hup := Neighbourhood.roundDiv_eq_or tie a d
    have hdown := Neighbourhood.roundDiv_eq_or tie b d
    omega
  · have hrest : a % d ≤ b % d := by
      rw [Nat.mod_eq_sub_div_mul, Nat.mod_eq_sub_div_mul, heq]
      omega
    unfold roundDiv
    rw [heq]
    cases tie <;> grind

theorem roundDiv_mul_right (hc : 0 < c) : roundDiv tie (a * c) (d * c) = roundDiv tie a d := by
  have hlt : d * c < 2 * (a % d * c) ↔ d < 2 * (a % d) := by
    rw [← Nat.mul_assoc, Nat.mul_lt_mul_right hc]
  have heq : 2 * (a % d * c) = d * c ↔ 2 * (a % d) = d := by
    rw [← Nat.mul_assoc, Nat.mul_left_inj hc.ne']
  simp only [roundDiv, Nat.mul_div_mul_right a d hc, Nat.mul_mod_mul_right, hlt, heq]

theorem roundDiv_mul_self (hd : 0 < d) : roundDiv tie (a * d) d = a := by
  simp [roundDiv, Nat.mul_div_cancel a hd, Nat.mul_mod_left, hd.ne]

/-- Only the difference of the powers of two matters. -/
theorem roundDiv_two_pow {i j k l : Nat} (h : i + l = k + j) :
    roundDiv tie (a * 2 ^ i) (2 ^ j) = roundDiv tie (a * 2 ^ k) (2 ^ l) := by
  rcases Nat.le_total i k with hle | hle
  · obtain ⟨r, rfl⟩ := Nat.exists_eq_add_of_le hle
    obtain rfl : l = j + r := by omega
    rw [Nat.pow_add, Nat.pow_add, ← Nat.mul_assoc, roundDiv_mul_right (Nat.two_pow_pos r)]
  · obtain ⟨r, rfl⟩ := Nat.exists_eq_add_of_le hle
    obtain rfl : j = l + r := by omega
    rw [Nat.pow_add, Nat.pow_add, ← Nat.mul_assoc, roundDiv_mul_right (Nat.two_pow_pos r)]

end RoundDiv

/-! ## Rounding -/

section Rounding

open Float.Model (Format totalExponent)
open Float.Model.UnpackedFloat

/-- The quotient `a / d` as a mantissa, with what division says of the rest. -/
def quotient (a d : Nat) : ExtendedMantissa :=
  .ofMantissaAndAccuracy (a / d) (accuracyOfFraction (a % d) d)

/-- What is left of a quotient that is shifted to the right, whether at least half of the last digit
is lost, and whether this is inexact. -/
theorem quotient_shiftRight (a k : Nat) {d : Nat} (hd : 0 < d) : quotient a d >>> k =
    ⟨a / (d * 2 ^ k), decide (d * 2 ^ k ≤ 2 * (a % (d * 2 ^ k))),
      decide (2 * (a % (d * 2 ^ k)) % (d * 2 ^ k) ≠ 0)⟩ := by
  induction k with
  | zero =>
    change quotient a d = _
    have hrest : a % d < d := Nat.mod_lt a hd
    rw [quotient, Nat.pow_zero, Nat.mul_one, accuracyOfFraction]
    generalize a % d = rest at *
    split
    · next hexact => simp [hexact, hd.ne', ExtendedMantissa.ofMantissaAndAccuracy]
    · next hinexact =>
      rcases Nat.lt_trichotomy (2 * rest) d with h | h | h
      · rw [Nat.compare_eq_lt.mpr h, decide_eq_false h.not_ge, Nat.mod_eq_of_lt h,
          decide_eq_true (by omega)]
        rfl
      · rw [Nat.compare_eq_eq.mpr h, decide_eq_true h.ge, h, Nat.mod_self]
        rfl
      · have hmod : 2 * rest % d = 2 * rest - d := by
          rw [Nat.mod_eq_sub_mod h.le, Nat.mod_eq_of_lt (by omega)]
        rw [Nat.compare_eq_gt.mpr h, decide_eq_true h.le, hmod, decide_eq_true (by omega)]
        rfl
  | succ k ih =>
    change (quotient a d >>> k).shiftRightOne = _
    rw [ih, Nat.pow_succ, ← Nat.mul_assoc]
    have hstep : 0 < d * 2 ^ k := Nat.mul_pos hd (Nat.two_pow_pos k)
    generalize d * 2 ^ k = step at *
    have hmod : a % (step * 2) = a % step + step * (a / step % 2) := Nat.mod_mul
    have hrest : a % step < step := Nat.mod_lt a hstep
    -- both bits together are set if anything was lost
    have hlost : (step ≤ 2 * (a % step) ∨ 2 * (a % step) % step ≠ 0) ↔ a % step ≠ 0 := by
      rcases Nat.lt_or_ge (2 * (a % step)) step with h | h
      · rw [Nat.mod_eq_of_lt h]
        omega
      · omega
    have hsticky : 2 * (a % (step * 2)) % (step * 2) = 2 * (a % step) := by
      rw [Nat.mul_comm step 2, Nat.mul_mod_mul_left, Nat.mod_mod_of_dvd _ (Nat.dvd_mul_left _ _)]
    have hround : a / step % 2 ≠ 0 ↔ step * 2 ≤ 2 * (a % (step * 2)) := by
      rw [hmod]
      rcases Nat.mod_two_eq_zero_or_one (a / step) with h | h <;> rw [h] <;> omega
    rw [ExtendedMantissa.shiftRightOne, ExtendedMantissa.mk.injEq]
    refine ⟨Nat.div_div_eq_div_mul _ _ _, ?_, ?_⟩
    · rw [Bool.eq_iff_iff, bne_iff_ne, decide_eq_true_iff, hround]
    · rw [Bool.eq_iff_iff, Bool.or_eq_true, decide_eq_true_iff, decide_eq_true_iff,
        decide_eq_true_iff, hlost, hsticky]
      omega

/-- A quotient that is shifted to the right is divided once and rounded to even. -/
theorem roundedMantissa_shiftRight (a k : Nat) {d : Nat} (hd : 0 < d) :
    (quotient a d >>> k).roundedMantissa = roundDiv .even a (d * 2 ^ k) := by
  have hrest : a % (d * 2 ^ k) < d * 2 ^ k :=
    Nat.mod_lt a (Nat.mul_pos hd (Nat.two_pow_pos k))
  rw [quotient_shiftRight a k hd, roundDiv]
  generalize a / (d * 2 ^ k) = whole
  generalize a % (d * 2 ^ k) = rest at *
  generalize d * 2 ^ k = step at *
  rcases Nat.lt_trichotomy (2 * rest) step with h | h | h
  · rw [decide_eq_false h.not_ge, if_neg h.not_gt, if_neg h.ne]
    cases decide (2 * rest % step ≠ 0) <;> rfl
  · rw [decide_eq_true h.ge, decide_eq_false (by rw [h, Nat.mod_self]; exact fun h => h rfl),
      if_neg h.not_gt, if_pos h]
    rfl
  · have hmod : 2 * rest % step = 2 * rest - step := by
      rw [Nat.mod_eq_sub_mod h.le, Nat.mod_eq_of_lt]
      omega
    rw [decide_eq_true h.le, decide_eq_true (by omega), if_pos h]
    rfl

theorem targetExponent_eq (m : Nat) (e : Int) :
    Format.binary64.targetExponent (totalExponent m e) = max (m.log2 + e - 52) (-1074) := by
  simp only [Format.targetExponent, totalExponent, Format.mantissaBits, Format.minExponent]
  omega

theorem shiftToTargetExponent_eq (m : Nat) (e : Int) (accuracy : Accuracy) :
    shiftToTargetExponent .binary64 m e accuracy =
      let k := (max (m.log2 + e - 52) (-1074) - e).toNat
      (ExtendedMantissa.ofMantissaAndAccuracy m accuracy >>> k, e + k) := by
  rw [shiftToTargetExponent, shiftToExponent, targetExponent_eq]

/-- A mantissa of 53 digits is left alone, and one that was rounded up to one more is halved. -/
theorem shiftToTargetExponent_of_le {q : Nat} {t : Int} (hq : q ≤ 2 ^ 53) (ht : -1074 ≤ t) :
    shiftToTargetExponent .binary64 q t .exact =
      if q = 2 ^ 53 then (ExtendedMantissa.mk (2 ^ 52) false false, t + 1)
      else (ExtendedMantissa.mk q false false, t) := by
  rw [shiftToTargetExponent_eq]
  split
  · next htop =>
    have hshift : (max (((2 ^ 53).log2 : Int) + t - 52) (-1074) - t).toNat = 1 := by
      rw [Nat.log2_two_pow]
      omega
    rw [htop, hshift]
    rfl
  · next htop =>
    have hlog : q.log2 < 53 := by
      rcases Nat.eq_zero_or_pos q with rfl | hpos
      · decide
      · exact (Nat.log2_lt hpos.ne').mpr (Nat.lt_of_le_of_ne hq htop)
    have hshift : (max ((q.log2 : Int) + t - 52) (-1074) - t).toNat = 0 := by omega
    rw [hshift]
    exact congrArg (Prod.mk _) (Int.add_zero t)

variable {a d m : Nat} {e t : Int}

/-- The digits that are kept. -/
theorem roundDiv_le (ht : t = max ((a / d).log2 + e - 52) (-1074)) :
    roundDiv .even a (d * 2 ^ (t - e).toNat) ≤ 2 ^ 53 := by
  have hlt : a / (d * 2 ^ (t - e).toNat) < 2 ^ 53 := by
    rw [← Nat.div_div_eq_div_mul]
    refine Nat.div_lt_of_lt_mul (Nat.lt_log2_self.trans_le ?_)
    rw [← Nat.pow_add]
    exact Nat.pow_le_pow_right (by decide) (by omega)
  rcases Neighbourhood.roundDiv_eq_or .even a (d * 2 ^ (t - e).toNat) with h | h <;> omega

theorem le_roundDiv (ht : t = max ((a / d).log2 + e - 52) (-1074)) (he : e ≤ t) :
    2 ^ 52 ≤ roundDiv .even a (d * 2 ^ (t - e).toNat) ∨ t = -1074 := by
  by_cases hleast : t = -1074
  · exact .inr hleast
  · have hne : a / d ≠ 0 := by
      intro hzero
      rw [hzero, Nat.log2_zero] at ht
      omega
    have hle : 2 ^ 52 ≤ a / (d * 2 ^ (t - e).toNat) := by
      rw [← Nat.div_div_eq_div_mul, Nat.le_div_iff_mul_le (Nat.two_pow_pos _), ← Nat.pow_add]
      refine (Nat.pow_le_pow_right (by decide) ?_).trans (Nat.log2_self_le hne)
      omega
    rcases Neighbourhood.roundDiv_eq_or .even a (d * 2 ^ (t - e).toNat) with h | h <;> omega

/-- The place of a quotient that is rounded, and the exponent with which it is written. The quotient
is wide enough to be shifted to the right only. -/
theorem roundWithAccuracy_quotient (s : Sign) (hd : 0 < d)
    (ht : t = max ((a / d).log2 + e - 52) (-1074)) (he : e ≤ t) :
    Fits (t + 1) (roundWithAccuracy .binary64 s (a / d) e (accuracyOfFraction (a % d) d)) ∧
      place (roundWithAccuracy .binary64 s (a / d) e (accuracyOfFraction (a % d) d)) =
        s.apply ((t + 1074) * 2 ^ 52 + roundDiv .even a (d * 2 ^ (t - e).toNat)) := by
  have hlow : -1074 ≤ t := by omega
  have hexponent : e + (t - e).toNat = t := by omega
  have hle := roundDiv_le ht
  have hge := le_roundDiv ht he
  rw [roundWithAccuracy, shiftToTargetExponent_eq, ← ht]
  dsimp only
  rw [hexponent, ← quotient, roundedMantissa_shiftRight a _ hd]
  generalize roundDiv .even a (d * 2 ^ (t - e).toNat) = q at *
  rw [shiftToTargetExponent_of_le hle hlow]
  by_cases htop : q = 2 ^ 53
  · rw [if_pos htop, dif_neg (Nat.two_pow_pos 52).ne']
    refine ⟨⟨⟨Nat.pow_lt_pow_succ (by decide), .inl le_rfl⟩, by omega, le_rfl⟩,
      congrArg s.apply ?_⟩
    push_cast [htop]
    ring
  · rw [if_neg htop]
    by_cases hzero : q = 0
    · rw [dif_pos hzero]
      obtain rfl : t = -1074 := hge.resolve_left (by omega)
      refine ⟨trivial, ?_⟩
      rw [hzero]
      cases s <;> rfl
    · rw [dif_neg hzero]
      exact ⟨⟨⟨Nat.lt_of_le_of_ne hle htop, hge⟩, hlow, by omega⟩, rfl⟩

/-- The place of a number that is rounded: a quotient by one. -/
theorem roundWithAccuracy_spec (s : Sign) (ht : t = max (m.log2 + e - 52) (-1074)) (he : e ≤ t) :
    Fits (t + 1) (roundWithAccuracy .binary64 s m e .exact) ∧
      place (roundWithAccuracy .binary64 s m e .exact) =
        s.apply ((t + 1074) * 2 ^ 52 + roundDiv .even m (2 ^ (t - e).toNat)) := by
  have hquotient := roundWithAccuracy_quotient (a := m) s Nat.one_pos
    (by rw [Nat.div_one]; exact ht) he
  rwa [Nat.div_one, Nat.mod_one, Nat.one_mul] at hquotient

theorem log2_mul_two_pow (hm : 0 < m) (k : Nat) : (m * 2 ^ k).log2 = m.log2 + k := by
  rw [Nat.log2_eq_iff (Nat.mul_pos hm (Nat.two_pow_pos k)).ne', Nat.pow_add, Nat.add_right_comm,
    Nat.pow_add]
  exact ⟨Nat.mul_le_mul_right _ (Nat.log2_self_le hm.ne'),
    Nat.mul_lt_mul_of_pos_right Nat.lt_log2_self (Nat.two_pow_pos k)⟩

/-- A number of any width is written with more digits first where it has too few. -/
theorem round_spec (s : Sign) (hm : 0 < m) (ht : t = max (m.log2 + e - 52) (-1074)) :
    Fits (t + 1) (round .binary64 s m e) ∧
      place (round .binary64 s m e) =
        s.apply ((t + 1074) * 2 ^ 52 +
          roundDiv .even (m * 2 ^ (e - t).toNat) (2 ^ (t - e).toNat)) := by
  have hround : round .binary64 s m e =
      roundWithAccuracy .binary64 s (m * 2 ^ (e - t).toNat) (e - (e - t).toNat) .exact := by
    rw [UnpackedFloat.round, targetExponent_eq, ← ht, decreaseExponent, Nat.shiftLeft_eq]
  have hlog := log2_mul_two_pow hm (e - t).toNat
  have hshift : (t - (e - (e - t).toNat)).toNat = (t - e).toNat := by omega
  rw [hround, ← hshift]
  exact roundWithAccuracy_spec s (by omega) (by omega)

end Rounding

/-! ## Integers -/

section Integers

open Float.Model (Format)
open Float.Model.UnpackedFloat

variable {u : UnpackedFloat} {b : Int} {m n : Nat}

theorem parts_pack (h : Fits 971 u) : parts ⟨Float.Model.pack u⟩ = u :=
  unpack_pack h

/-- The place of the double nearest to an integer. -/
def integerPlace (n : Nat) : Nat :=
  if n = 0 then 0 else (n.log2 + 1022) * 2 ^ 52 + roundDiv .even (n * 2 ^ 52) (2 ^ n.log2)

/-- The same with the mantissa shifted so far that 53 digits are kept. -/
theorem rounded_place_eq (hn : n ≠ 0) {i j : Nat} (h : i + n.log2 = 52 + j) :
    Sign.positive.apply (((n.log2 : Int) - 52 + 1074) * 2 ^ 52 +
      roundDiv .even (n * 2 ^ i) (2 ^ j)) = integerPlace n := by
  rw [integerPlace, if_neg hn, roundDiv_two_pow h, Sign.apply]
  push_cast
  ring

/-- The digits that are kept are those of the leading power of two, or of the next. -/
theorem roundDiv_leading (hn : n ≠ 0) : 2 ^ 52 ≤ roundDiv .even (n * 2 ^ 52) (2 ^ n.log2) ∧
    roundDiv .even (n * 2 ^ 52) (2 ^ n.log2) ≤ 2 ^ 53 := by
  have hpos : 0 < 2 ^ n.log2 := Nat.two_pow_pos _
  have hlow : 2 ^ 52 * 2 ^ n.log2 ≤ n * 2 ^ 52 := by
    rw [Nat.mul_comm]
    exact Nat.mul_le_mul_right _ (Nat.log2_self_le hn)
  have hhigh : n * 2 ^ 52 ≤ 2 ^ 53 * 2 ^ n.log2 := calc
    n * 2 ^ 52 ≤ 2 ^ (n.log2 + 1) * 2 ^ 52 := Nat.mul_le_mul_right _ Nat.lt_log2_self.le
    _ = 2 ^ 53 * 2 ^ n.log2 := by ring
  constructor
  · exact (roundDiv_mul_self hpos).symm.trans_le (roundDiv_mono hpos hlow)
  · exact (roundDiv_mono hpos hhigh).trans_eq (roundDiv_mul_self hpos)

theorem integerPlace_eq_zero_iff : integerPlace n = 0 ↔ n = 0 := by
  unfold integerPlace
  split <;> omega

/-- The place of an integer behind a power of two. -/
theorem le_integerPlace {k : Nat} (h : k < n.log2) :
    (k + 1022) * 2 ^ 52 + 2 ^ 53 ≤ integerPlace n := by
  have hn : n ≠ 0 := by
    rintro rfl
    exact Nat.not_lt_zero k h
  rw [integerPlace, if_neg hn]
  calc (k + 1022) * 2 ^ 52 + 2 ^ 53
      = (k + 1 + 1022) * 2 ^ 52 + 2 ^ 52 := by ring
    _ ≤ (n.log2 + 1022) * 2 ^ 52 + roundDiv .even (n * 2 ^ 52) (2 ^ n.log2) :=
      Nat.add_le_add (Nat.mul_le_mul_right _ (Nat.add_le_add_right h _)) (roundDiv_leading hn).1

theorem integerPlace_mono (h : m ≤ n) : integerPlace m ≤ integerPlace n := by
  rcases Nat.eq_zero_or_pos m with rfl | hpos
  · exact Nat.zero_le _
  · have hn : n ≠ 0 := by omega
    have hlog : m.log2 ≤ n.log2 :=
      (Nat.le_log2 hn).mpr ((Nat.log2_self_le hpos.ne').trans h)
    rw [integerPlace, if_neg hpos.ne']
    rcases hlog.lt_or_eq with hlt | heq
    · -- the smaller integer does not get past the power of two between them
      exact (Nat.add_le_add_left (roundDiv_leading hpos.ne').2 _).trans (le_integerPlace hlt)
    · rw [integerPlace, if_neg hn, heq]
      exact Nat.add_le_add_left
        (roundDiv_mono (Nat.two_pow_pos _) (Nat.mul_le_mul_right _ h)) _

/-- An integer of 53 digits keeps all of them. -/
theorem integerPlace_of_log2_le (hm : m ≠ 0) (h : m.log2 ≤ 52) :
    integerPlace m = (m.log2 + 1022) * 2 ^ 52 + m * 2 ^ (52 - m.log2) := by
  have hdigits : m * 2 ^ 52 = m * 2 ^ (52 - m.log2) * 2 ^ m.log2 := by
    rw [Nat.mul_assoc, ← Nat.pow_add, Nat.sub_add_cancel h]
  rw [integerPlace, if_neg hm, hdigits, roundDiv_mul_self (Nat.two_pow_pos _)]

/-- Integers up to `2 ^ 53` have different places. -/
theorem integerPlace_strictMono (h : m < n) (hm : m < 2 ^ 53) :
    integerPlace m < integerPlace n := by
  have hn : n ≠ 0 := by omega
  rcases Nat.eq_zero_or_pos m with rfl | hpos
  · exact Nat.pos_of_ne_zero (mt integerPlace_eq_zero_iff.mp hn)
  · have hlogm : m.log2 ≤ 52 := Nat.le_of_lt_succ ((Nat.log2_lt hpos.ne').mpr hm)
    have hlog : m.log2 ≤ n.log2 :=
      (Nat.le_log2 hn).mpr ((Nat.log2_self_le hpos.ne').trans h.le)
    rw [integerPlace_of_log2_le hpos.ne' hlogm]
    rcases hlog.lt_or_eq with hlt | heq
    · have hdigits : m * 2 ^ (52 - m.log2) < 2 ^ 53 := calc
        m * 2 ^ (52 - m.log2) < 2 ^ (m.log2 + 1) * 2 ^ (52 - m.log2) :=
          Nat.mul_lt_mul_of_pos_right Nat.lt_log2_self (Nat.two_pow_pos _)
        _ = 2 ^ 53 := by
          rw [← Nat.pow_add]
          congr 1
          omega
      exact (Nat.add_lt_add_left hdigits _).trans_le (le_integerPlace hlt)
    · rw [integerPlace_of_log2_le hn (heq ▸ hlogm), ← heq]
      exact Nat.add_lt_add_left (Nat.mul_lt_mul_of_pos_right h (Nat.two_pow_pos _)) _

theorem eq_of_integerPlace_eq (h : integerPlace m = integerPlace n) :
    m = n ∨ 2 ^ 53 ≤ m ∧ 2 ^ 53 ≤ n := by
  rcases Nat.lt_trichotomy m n with hlt | heq | hgt
  · exact .inr ⟨Nat.le_of_not_lt fun hm => (integerPlace_strictMono hlt hm).ne h,
      Nat.le_of_not_lt fun hn => (integerPlace_strictMono hlt (hlt.trans hn)).ne h⟩
  · exact .inl heq
  · exact .inr ⟨Nat.le_of_not_lt fun hm => (integerPlace_strictMono hgt (hgt.trans hm)).ne' h,
      Nat.le_of_not_lt fun hn => (integerPlace_strictMono hgt hn).ne' h⟩

/-- One. -/
theorem parts_one : ∃ h, parts (Float.ofBits 4607182418800017408) = .finite .positive (2 ^ 52) (-52) h :=
  ⟨Nat.two_pow_pos 52, rfl⟩

/-- A number times one. -/
theorem mul_one_spec {h : 0 < 2 ^ 52} (hu : Fits b u) :
    Fits (b + 1) (UnpackedFloat.mul .binary64 u (.finite .positive (2 ^ 52) (-52) h)) ∧
      place (UnpackedFloat.mul .binary64 u (.finite .positive (2 ^ 52) (-52) h)) = place u := by
  obtain ⟨s, rfl⟩ | ⟨s, m, e, hm, rfl⟩ := hu.zero_or_finite
  · exact ⟨trivial, rfl⟩
  · obtain ⟨⟨hlt, hleading⟩, hlow, hhigh⟩ := hu
    have hexponent : e = max (((m * 2 ^ 52).log2 : Int) + (e + -52) - 52) (-1074) := by
      have hlog : m.log2 ≤ 52 := Nat.le_of_lt_succ ((Nat.log2_lt hm.ne').mpr hlt)
      rw [log2_mul_two_pow hm]
      rcases hleading with hnormal | rfl
      · have := (Nat.le_log2 hm.ne').mpr hnormal
        omega
      · omega
    obtain ⟨hfits, hplace⟩ := roundWithAccuracy_spec s hexponent (by omega)
    have hshift : (e - (e + -52)).toNat = 52 := by omega
    have hsign : s * Sign.positive = s := by cases s <;> rfl
    rw [hshift, roundDiv_mul_self (Nat.two_pow_pos 52)] at hplace
    rw [UnpackedFloat.mul, hsign]
    exact ⟨hfits.mono (by omega), hplace⟩

/-- Integers of 53 digits are made from words and multiplied by a power of ten, the first. -/
theorem ofNat_of_lt (h : n < 2 ^ 53) :
    Float.ofNat n = n.toUInt64.toFloat * Float.ofBits 4607182418800017408 := by
  change (if h : n < 2 ^ 53 ∧ 0 ≤ 22 then _ else _) = _
  rw [dif_pos ⟨h, by decide⟩]
  rfl

/-- Larger integers are multiplied by the power as they are. -/
theorem ofNat_of_le (h : 2 ^ 53 ≤ n) : Float.ofNat n = ⟨Float.Model.pack
    (roundWithAccuracy .binary64 .positive (n * 2 ^ 53) (-53) .exact)⟩ := by
  have hn : n ≠ 0 := by omega
  have hlog : ¬(0 : Int) < -(2 ^ 11 + n.log2) := by omega
  change (if h : n < 2 ^ 53 ∧ 0 ≤ 22 then _ else _) = _
  rw [dif_neg fun hlt => hlt.1.not_ge h]
  change (⟨Float.Model.pack (UnpackedFloat.ofScientific .binary64 n 0)⟩ : Float) = _
  rw [UnpackedFloat.ofScientific, dif_neg hn, if_neg (by decide), if_neg hlog, if_pos le_rfl,
    UnpackedFloat.mul, Nat.shiftLeft_eq, Int.toNat_zero, Nat.pow_zero, Nat.mul_one, Int.add_zero]
  rfl

theorem ofUInt64_spec (hn : n < 2 ^ 64) : Fits 12 (UnpackedFloat.ofUInt64 .binary64 n.toUInt64) ∧
    place (UnpackedFloat.ofUInt64 .binary64 n.toUInt64) = integerPlace n := by
  have hword : n.toUInt64.toNat = n := by
    rw [Nat.toUInt64, UInt64.toNat_ofNat']
    exact Nat.mod_eq_of_lt hn
  change Fits 12 (UnpackedFloat.normalize .binary64 n.toUInt64.toNat 0 .positive) ∧
    place (UnpackedFloat.normalize .binary64 n.toUInt64.toNat 0 .positive) = _
  rw [hword]
  rcases Nat.eq_zero_or_pos n with rfl | hpos
  · exact ⟨trivial, rfl⟩
  · have hlog : n.log2 < 64 := (Nat.log2_lt hpos.ne').mpr hn
    have hround : UnpackedFloat.normalize .binary64 n 0 .positive =
        round .binary64 .positive n 0 := by
      rw [UnpackedFloat.normalize, Int.compare_eq_gt.mpr (by omega)]
      rfl
    obtain ⟨hfits, hplace⟩ := round_spec (t := n.log2 - 52) (e := 0) .positive hpos (by omega)
    rw [hround]
    exact ⟨hfits.mono (by omega), hplace.trans (rounded_place_eq hpos.ne' (by omega))⟩

/-- The double nearest to an integer is at its place. -/
theorem parts_ofNat (hn : n < 2 ^ 64) :
    Fits 13 (parts (Float.ofNat n)) ∧ place (parts (Float.ofNat n)) = integerPlace n := by
  rcases Nat.lt_or_ge n (2 ^ 53) with hsmall | hlarge
  · obtain ⟨hfits, hplace⟩ := ofUInt64_spec hn
    obtain ⟨hone, hparts⟩ := parts_one
    obtain ⟨hproduct, hsame⟩ := mul_one_spec (h := hone) hfits
    have hunpack : parts n.toUInt64.toFloat = UnpackedFloat.ofUInt64 .binary64 n.toUInt64 :=
      parts_pack (hfits.mono (by decide))
    have hmul : Float.ofNat n = ⟨Float.Model.pack (UnpackedFloat.mul .binary64
        (parts n.toUInt64.toFloat) (parts (Float.ofBits 4607182418800017408)))⟩ :=
      ofNat_of_lt hsmall
    rw [hmul, hparts, hunpack, parts_pack (hproduct.mono (by decide))]
    exact ⟨hproduct, hsame.trans hplace⟩
  · have hpos : 0 < n := by omega
    have hlog : n.log2 < 64 := (Nat.log2_lt hpos.ne').mpr hn
    have hlow : 53 ≤ n.log2 := (Nat.le_log2 hpos.ne').mpr hlarge
    have hexponent : (n.log2 : Int) - 52 =
        max (((n * 2 ^ 53).log2 : Int) + -53 - 52) (-1074) := by
      rw [log2_mul_two_pow hpos]
      omega
    obtain ⟨hfits, hplace⟩ := roundWithAccuracy_spec .positive hexponent (by omega)
    rw [ofNat_of_le hlarge, parts_pack (hfits.mono (by omega))]
    exact ⟨hfits.mono (by omega), hplace.trans (rounded_place_eq hpos.ne' (by omega))⟩

theorem Fits.neg (h : Fits b u) : Fits b u.neg ∧ place u.neg = -place u := by
  obtain ⟨s, rfl⟩ | ⟨s, m, e, hm, rfl⟩ := h.zero_or_finite
  · exact ⟨trivial, rfl⟩
  · refine ⟨h, ?_⟩
    cases s
    · exact (Int.neg_neg _).symm
    · rfl

theorem parts_neg {x : Float} (h : Fits 971 (parts x)) : parts (-x) = (parts x).neg :=
  parts_pack h.neg.1

/-- The place of the double nearest to an integer with a sign. -/
def signedPlace : Int → Int
  | .ofNat n => integerPlace n
  | .negSucc n => -integerPlace (n + 1)

theorem signedPlace_mono {m n : Int} (h : m ≤ n) : signedPlace m ≤ signedPlace n := by
  cases m with
  | ofNat m =>
    cases n with
    | ofNat n => exact Int.ofNat_le.mpr (integerPlace_mono (Int.ofNat_le.mp h))
    | negSucc n => exact absurd (Int.negSucc_lt_zero n) (h.trans' (Int.natCast_nonneg m)).not_gt
  | negSucc m =>
    cases n with
    | ofNat n =>
      simp only [signedPlace]
      omega
    | negSucc n => exact Int.neg_le_neg (Int.ofNat_le.mpr (integerPlace_mono (by omega)))

theorem parts_ofInt64 (n : Int64) :
    Fits 13 (parts (ofInt64 n)) ∧ place (parts (ofInt64 n)) = signedPlace n.toInt := by
  have hlow := n.le_toInt
  have hhigh := n.toInt_lt
  unfold ofInt64
  cases hn : n.toInt with
  | ofNat k =>
    rw [hn] at hhigh
    exact parts_ofNat ((Int.ofNat_lt.mp hhigh).trans (by decide))
  | negSucc k =>
    obtain ⟨hfits, hplace⟩ := parts_ofNat (n := k + 1) (by omega)
    have hneg : parts (Float.ofInt (.negSucc k)) = (parts (Float.ofNat (k + 1))).neg :=
      parts_neg (hfits.mono (by decide))
    rw [hneg, hfits.neg.2, hplace]
    exact ⟨hfits.neg.1, rfl⟩

/-- Larger integers are not rounded to smaller doubles. -/
theorem place_ofInt64_le {m n : Int64} (h : m.toInt ≤ n.toInt) :
    place (parts (ofInt64 m)) ≤ place (parts (ofInt64 n)) := by
  rw [(parts_ofInt64 m).2, (parts_ofInt64 n).2]
  exact signedPlace_mono h

theorem Fits.isFinite (h : Fits b u) : u.isFinite = true ∧ u.isNaN = false := by
  obtain ⟨s, rfl⟩ | ⟨s, m, e, hm, rfl⟩ := h.zero_or_finite <;> exact ⟨rfl, rfl⟩

theorem isFinite_of_fits {x : Float} (h : Fits b (parts x)) : x.isFinite = true :=
  h.isFinite.1

theorem isNaN_of_fits {x : Float} (h : Fits b (parts x)) : x.isNaN = false :=
  h.isFinite.2

theorem isNaN_ofInt64 (n : Int64) : (ofInt64 n).isNaN = false :=
  isNaN_of_fits (parts_ofInt64 n).1

theorem parts_zero : parts 0.0 = .zero .positive := by
  rfl

theorem signedPlace_eq_zero_iff {n : Int} : signedPlace n = 0 ↔ n = 0 := by
  cases n with
  | ofNat n =>
    rw [signedPlace, Int.natCast_eq_zero, integerPlace_eq_zero_iff]
    exact Int.natCast_eq_zero.symm
  | negSucc n =>
    have := integerPlace_eq_zero_iff (n := n + 1)
    simp only [signedPlace]
    omega

theorem eq_of_signedPlace_eq {m n : Int} (h : signedPlace m = signedPlace n) :
    m = n ∨ 2 ^ 53 ≤ m.natAbs ∧ 2 ^ 53 ≤ n.natAbs := by
  cases m with
  | ofNat m =>
    cases n with
    | ofNat n => exact (eq_of_integerPlace_eq (Int.ofNat_inj.mp h)).imp_left (congrArg Int.ofNat)
    | negSucc n =>
      have := integerPlace_eq_zero_iff (n := n + 1)
      simp only [signedPlace] at h
      omega
  | negSucc m =>
    cases n with
    | ofNat n =>
      have := integerPlace_eq_zero_iff (n := m + 1)
      simp only [signedPlace] at h
      omega
    | negSucc n =>
      have heq : integerPlace (m + 1) = integerPlace (n + 1) := Int.ofNat_inj.mp (Int.neg_inj.mp h)
      exact (eq_of_integerPlace_eq heq).imp_left fun h => congrArg Int.negSucc (Nat.succ.inj h)

theorem signedPlace_neg_iff {n : Int} : signedPlace n < 0 ↔ n < 0 := by
  have hzero := signedPlace_eq_zero_iff (n := n)
  rcases Int.le_total 0 n with h | h
  · have := signedPlace_mono h
    have : signedPlace 0 = 0 := rfl
    omega
  · have := signedPlace_mono h
    have : signedPlace 0 = 0 := rfl
    omega

theorem isNaN_zero : Float.isNaN 0.0 = false :=
  isNaN_of_fits (b := 0) (parts_zero ▸ trivial)

theorem ofInt64_beq_zero_iff {n : Int64} : (ofInt64 n == 0.0) = true ↔ n.toInt = 0 := by
  rw [beq_iff_place (isNaN_ofInt64 n) isNaN_zero, (parts_ofInt64 n).2, parts_zero]
  exact signedPlace_eq_zero_iff

theorem ofInt64_lt_zero_iff {n : Int64} : ofInt64 n < 0.0 ↔ n.toInt < 0 := by
  rw [lt_iff_place (isNaN_ofInt64 n) isNaN_zero, (parts_ofInt64 n).2, parts_zero]
  exact signedPlace_neg_iff

end Integers

/-! ## Operations -/

section Operations

open Float.Model.UnpackedFloat

variable {u v : UnpackedFloat} {b : Int}

theorem natAbs_apply (s : Sign) (m : Nat) : (s.apply m).natAbs = m := by
  cases s
  · exact Int.natAbs_neg m
  · rfl

theorem normalize_fits {m e : Int} {j : Nat} (zero : Sign) (hb : -1074 ≤ b)
    (hm : m.natAbs < 2 ^ j) (hj : j + e ≤ b + 53) :
    Fits (b + 1) (UnpackedFloat.normalize .binary64 m e zero) := by
  have hround : ∀ (s : Sign) (k : Nat), 0 < k → k < 2 ^ j →
      Fits (b + 1) (UnpackedFloat.round .binary64 s k e) := by
    intro s k hpos hlt
    have hlog := (Nat.log2_lt hpos.ne').mpr hlt
    exact (round_spec s hpos rfl).1.mono (by omega)
  rw [UnpackedFloat.normalize]
  rcases Int.lt_trichotomy m 0 with h | rfl | h
  · rw [Int.compare_eq_lt.mpr h]
    exact hround .negative _ (by omega) (by omega)
  · trivial
  · rw [Int.compare_eq_gt.mpr h]
    exact hround .positive _ (by omega) (by omega)

/-- A mantissa with a smaller exponent. -/
theorem natAbs_shiftLeft_lt {s : Sign} {m : Nat} {e least : Int} (hm : m < 2 ^ 53) (he : e ≤ b)
    (hle : least ≤ e) :
    (s.apply (m <<< (e - least).toNat : Nat)).natAbs < 2 ^ (b - least + 53).toNat := by
  rw [natAbs_apply, Nat.shiftLeft_eq]
  calc m * 2 ^ (e - least).toNat
      < 2 ^ 53 * 2 ^ (e - least).toNat := Nat.mul_lt_mul_of_pos_right hm (Nat.two_pow_pos _)
    _ = 2 ^ (53 + (e - least).toNat) := (Nat.pow_add 2 53 _).symm
    _ ≤ 2 ^ (b - least + 53).toNat := Nat.pow_le_pow_right (by decide) (by omega)

theorem normalize_sum_fits {i j least : Int} (zero : Sign) (hb : -1074 ≤ b) (hle : least ≤ b)
    (hi : i.natAbs < 2 ^ (b - least + 53).toNat) (hj : j.natAbs < 2 ^ (b - least + 53).toNat) :
    Fits (b + 2) (UnpackedFloat.normalize .binary64 (i + j) least zero) := by
  refine (normalize_fits (b := b + 1) (j := (b - least + 53).toNat + 1) zero (by omega) ?_
    (by omega)).mono (by omega)
  rw [Nat.pow_succ]
  omega

/-- A sum of numbers that fit, or a difference, overflows only at the bound. -/
theorem Fits.add (hu : Fits b u) (hv : Fits b v) :
    Fits (b + 2) (UnpackedFloat.add .binary64 u v) ∧
      Fits (b + 2) (UnpackedFloat.sub .binary64 u v) := by
  have hu' : Fits (b + 2) u := hu.mono (by omega)
  have hv' : Fits (b + 2) v := hv.mono (by omega)
  obtain ⟨s, rfl⟩ | ⟨s, m, e, hm, rfl⟩ := hu.zero_or_finite
  · obtain ⟨t, rfl⟩ | ⟨t, n, f, hn, rfl⟩ := hv.zero_or_finite
    · cases s <;> cases t <;> exact ⟨trivial, trivial⟩
    · exact ⟨hv', hv'⟩
  · obtain ⟨t, rfl⟩ | ⟨t, n, f, hn, rfl⟩ := hv.zero_or_finite
    · exact ⟨hu', hu'⟩
    · obtain ⟨⟨hm, -⟩, helow, heb⟩ := hu
      obtain ⟨⟨hn, -⟩, hflow, hfb⟩ := hv
      have hleft := natAbs_shiftLeft_lt (s := s) hm heb (Int.min_le_left e f)
      have hright := natAbs_shiftLeft_lt (s := t) hn hfb (Int.min_le_right e f)
      have hb : -1074 ≤ b := helow.trans heb
      have hle : min e f ≤ b := (Int.min_le_left e f).trans heb
      refine ⟨normalize_sum_fits .positive hb hle hleft hright, ?_⟩
      rw [UnpackedFloat.sub, decreaseExponent, decreaseExponent]
      dsimp only
      rw [Int.sub_eq_add_neg]
      exact normalize_sum_fits .positive hb hle hleft (by rwa [Int.natAbs_neg])

theorem Fits.mul (hu : Fits b u) (hv : Fits b v) (hb : 0 ≤ b) :
    Fits (2 * b + 54) (UnpackedFloat.mul .binary64 u v) := by
  obtain ⟨s, rfl⟩ | ⟨s, m, e, hm, rfl⟩ := hu.zero_or_finite
  · obtain ⟨t, rfl⟩ | ⟨t, n, f, hn, rfl⟩ := hv.zero_or_finite <;> trivial
  · obtain ⟨t, rfl⟩ | ⟨t, n, f, hn, rfl⟩ := hv.zero_or_finite
    · trivial
    · obtain ⟨⟨hmlt, hmlow⟩, helow, heb⟩ := hu
      obtain ⟨⟨hnlt, hnlow⟩, hflow, hfb⟩ := hv
      have hpos : m * n ≠ 0 := (Nat.mul_pos hm hn).ne'
      have hlog : (m * n).log2 < 106 := (Nat.log2_lt hpos).mpr <| calc
        m * n < 2 ^ 53 * 2 ^ 53 := Nat.mul_lt_mul'' hmlt hnlt
        _ = 2 ^ 106 := (Nat.pow_add 2 53 53).symm
      -- the product is wide enough to be rounded, unless both exponents are the least
      have hwide : 52 ≤ (m * n).log2 ∨ e + f = -2148 := by
        rw [Nat.le_log2 hpos]
        rcases hmlow with h | rfl
        · exact .inl (h.trans (Nat.le_mul_of_pos_right m hn))
        · rcases hnlow with h | rfl
          · exact .inl (h.trans (Nat.le_mul_of_pos_left n hm))
          · exact .inr rfl
      exact (roundWithAccuracy_spec (s * t) rfl (by omega)).1.mono (by omega)

theorem isFinite_pack (h : Fits 971 u) : Float.isFinite ⟨Float.Model.pack u⟩ = true :=
  isFinite_of_fits (parts_pack h ▸ h)

theorem isFinite_neg (n : Int64) : (-ofInt64 n).isFinite = true :=
  isFinite_pack ((parts_ofInt64 n).1.neg.1.mono (by decide))

theorem isFinite_add (m n : Int64) : (ofInt64 m + ofInt64 n).isFinite = true :=
  isFinite_pack (((parts_ofInt64 m).1.add (parts_ofInt64 n).1).1.mono (by decide))

theorem isFinite_sub (m n : Int64) : (ofInt64 m - ofInt64 n).isFinite = true :=
  isFinite_pack (((parts_ofInt64 m).1.add (parts_ofInt64 n).1).2.mono (by decide))

theorem isFinite_mul (m n : Int64) : (ofInt64 m * ofInt64 n).isFinite = true :=
  isFinite_pack (((parts_ofInt64 m).1.mul (parts_ofInt64 n).1 (by decide)).mono (by decide))

end Operations

end Spreadsheet.Number
