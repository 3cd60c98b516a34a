import Spreadsheet.Proofs.NumberWidth
import Spreadsheet.Value.Order

/-!
# The line of doubles

The doubles stand in a line, and the place of a double is the number of steps that lead to it from
zero. Its mantissa counts the steps of one size, and its exponent the sizes before, each of which has
`2 ^ 52` steps. Comparing two doubles compares their places.

Results:
1. `parts_fits`: how a finite double is written;
2. `unpack_pack`: a number that is written like this is read back from the double;
3. `compareFloats?_eq`: two doubles are in the order of their places.
-/

namespace Spreadsheet.Number

open Float.Model (UnpackedFloat)
open Float.Model.UnpackedFloat (Sign ExtendedMantissa)

/-! ## Numbers that fit into a double -/

/-- A number that is finite, has an exponent up to a bound and is written like a double, with a
mantissa of 53 digits unless the exponent is the least. -/
def Fits (bound : Int) : UnpackedFloat → Prop
  | .zero _ => True
  | .finite _ m e _ => (m < 2 ^ 53 ∧ (2 ^ 52 ≤ m ∨ e = -1074)) ∧ -1074 ≤ e ∧ e ≤ bound
  | _ => False

/-- A number that fits is zero or finite. -/
theorem Fits.zero_or_finite {b : Int} {u : UnpackedFloat} (h : Fits b u) :
    (∃ s, u = .zero s) ∨ ∃ s m e, ∃ hm : 0 < m, u = .finite s m e hm := by
  cases u with
  | zero s => exact .inl ⟨s, rfl⟩
  | finite s m e hm => exact .inr ⟨s, m, e, hm, rfl⟩
  | infinity s => exact h.elim
  | notANumber => exact h.elim

theorem Fits.mono {b c : Int} {u : UnpackedFloat} (h : Fits b u) (hbc : b ≤ c) : Fits c u := by
  obtain ⟨s, rfl⟩ | ⟨s, m, e, hm, rfl⟩ := h.zero_or_finite
  · trivial
  · exact ⟨h.1, h.2.1, h.2.2.trans hbc⟩

/-- The steps from zero to a number, in the direction of its sign. -/
def place : UnpackedFloat → Int
  | .finite s m e _ => s.apply ((e + 1074) * 2 ^ 52 + m)
  | .infinity s => s.apply (2047 * 2 ^ 52)
  | _ => 0

theorem toNat_marked (v : BitVec 52) : (1#1 ++ v).toNat = 2 ^ 52 + v.toNat := by
  rw [BitVec.toNat_append, ← Nat.shiftLeft_add_eq_or_of_lt v.isLt]
  rfl

theorem parts_fits {x : Float} {s : Sign} {m : Nat} {e : Int} {h : 0 < m}
    (hx : parts x = .finite s m e h) : Fits 971 (.finite s m e h) := by
  obtain ⟨hm, hlow, hhigh⟩ := parts_bounds hx
  refine ⟨⟨hm, ?_⟩, hlow, hhigh⟩
  unfold parts Float.Model.unpack UnpackedFloat.unpack at hx
  dsimp only at hx
  split at hx
  · split at hx <;> cases hx
  · split at hx
    · next hzeros =>
      split at hx
      · cases hx
      · simp only [UnpackedFloat.finite.injEq] at hx
        have hbias : (Float.Model.Format.binary64.exponentBias : Int) = 1023 := by decide
        rw [hzeros, hbias] at hx
        refine .inr ?_
        simpa using hx.2.2.symm
    · simp only [UnpackedFloat.finite.injEq] at hx
      rw [← hx.2.1, toNat_marked]
      exact .inl (Nat.le_add_right _ _)

/-! ## Packing -/

section Packing

open Float.Model (Format)
open Float.Model.UnpackedFloat

variable {s : Sign} {exponent : BitVec 11} {mantissa : BitVec 52} {m : Nat} {e : Int} {hm : 0 < m}

theorem exponentBias_binary64 : (Format.binary64.exponentBias : Int) = 1023 := by
  decide

theorem unpack_normal (hfirst : exponent ≠ 0#11) (hlast : exponent ≠ -1#11)
    (hmantissa : 2 ^ 52 + mantissa.toNat = m) (hexponent : (exponent.toNat : Int) = e + 1075) :
    UnpackedFloat.unpack .binary64 (packComponents .binary64 s exponent mantissa) =
      .finite s m e hm := by
  simp only [UnpackedFloat.unpack, unpackExponent_packComponents, unpackMantissa_packComponents,
    unpackSign_packComponents, Sign.ofBitVec_toBitVec, hlast, hfirst, if_false]
  rw [UnpackedFloat.finite.injEq, toNat_marked, exponentBias_binary64]
  refine ⟨rfl, hmantissa, ?_⟩
  omega

theorem unpack_subnormal (hmantissa : mantissa.toNat = m) :
    UnpackedFloat.unpack .binary64 (packComponents .binary64 s 0#11 mantissa) =
      .finite s m (-1074) hm := by
  have hzero : mantissa ≠ 0#52 := by
    rintro rfl
    exact hm.ne hmantissa
  have hlast : 0#11 ≠ -1#11 := by decide
  simp only [UnpackedFloat.unpack, unpackExponent_packComponents, unpackMantissa_packComponents,
    unpackSign_packComponents, Sign.ofBitVec_toBitVec, hlast, hzero, if_false, if_true, dite_false]
  rw [UnpackedFloat.finite.injEq, exponentBias_binary64]
  exact ⟨rfl, hmantissa, rfl⟩

theorem pack_finite (he : e ≤ 971) :
    UnpackedFloat.pack .binary64 (.finite s m e hm) =
      packComponents .binary64 s (if m.log2 = 52 then BitVec.ofNat 11 (e + 1075).toNat else 0#11)
        (BitVec.ofNat 52 m) := by
  have hsum : e + (Format.binary64.exponentBias : Int) + (52 : Nat) = e + 1075 := by
    rw [exponentBias_binary64]
    omega
  have hroom : ¬2 ^ 11 ≤ (e + 1075).toNat + 1 := by omega
  unfold UnpackedFloat.pack
  dsimp only
  rw [hsum, if_neg hroom]
  split
  · next hlog => rw [if_pos (Nat.succ.inj hlog)]
  · next hlog => rw [if_neg (mt (congrArg Nat.succ) hlog)]

/-- A number that fits is read back from the double. -/
theorem unpack_pack {u : UnpackedFloat} (h : Fits 971 u) :
    UnpackedFloat.unpack .binary64 (UnpackedFloat.pack .binary64 u) = u := by
  obtain ⟨s, rfl⟩ | ⟨s, m, e, hm, rfl⟩ := h.zero_or_finite
  · cases s <;> rfl
  · obtain ⟨⟨hmantissa, hleading⟩, hlow, hhigh⟩ := h
    rw [pack_finite hhigh]
    by_cases hnormal : 2 ^ 52 ≤ m
    · have hexponent : (BitVec.ofNat 11 (e + 1075).toNat).toNat = (e + 1075).toNat := by
        rw [BitVec.toNat_ofNat]
        omega
      have hne : ∀ b : BitVec 11, b.toNat ≠ (e + 1075).toNat →
          BitVec.ofNat 11 (e + 1075).toNat ≠ b := by
        rintro b hb rfl
        exact hb hexponent
      rw [if_pos ((Nat.log2_eq_iff hm.ne').mpr ⟨hnormal, hmantissa⟩)]
      refine unpack_normal (hne _ ?_) (hne _ ?_) ?_ ?_
      · change 0 ≠ _
        omega
      · change 2047 ≠ _
        omega
      · rw [BitVec.toNat_ofNat]
        omega
      · rw [hexponent]
        omega
    · obtain rfl : e = -1074 := hleading.resolve_left hnormal
      have hlog : m.log2 ≠ 52 := ((Nat.log2_lt hm.ne').mpr (Nat.lt_of_not_le hnormal)).ne
      rw [if_neg hlog]
      refine unpack_subnormal ?_
      rw [BitVec.toNat_ofNat]
      omega

end Packing

/-! ## Comparison -/

section Comparison

variable {x y : Float} {u v : UnpackedFloat} {s s' : Sign} {m m' : Nat} {e e' b : Int} {hm : 0 < m}
  {hm' : 0 < m'}

/-- Of two mantissas with different exponents the one with the larger exponent is the larger. -/
theorem compare_exponents_then (h : Fits b (.finite s m e hm)) (h' : Fits b (.finite s' m' e' hm')) :
    (compare e e').then (compare m m') =
      compare ((e + 1074) * 2 ^ 52 + m) ((e' + 1074) * 2 ^ 52 + m') := by
  obtain ⟨⟨hlt, hleading⟩, hlow, -⟩ := h
  obtain ⟨⟨hlt', hleading'⟩, hlow', -⟩ := h'
  rcases Int.lt_trichotomy e e' with he | rfl | he
  · rw [Int.compare_eq_lt.mpr he, Ordering.lt_then, eq_comm, Int.compare_eq_lt]
    omega
  · rw [Int.compare_eq_eq.mpr rfl, Ordering.eq_then]
    rcases Nat.lt_trichotomy m m' with hlt | rfl | hgt
    · rw [Nat.compare_eq_lt.mpr hlt, eq_comm, Int.compare_eq_lt]
      omega
    · rw [Nat.compare_eq_eq.mpr rfl, eq_comm, Int.compare_eq_eq]
    · rw [Nat.compare_eq_gt.mpr hgt, eq_comm, Int.compare_eq_gt]
      omega
  · rw [Int.compare_eq_gt.mpr he, Ordering.gt_then, eq_comm, Int.compare_eq_gt]
    omega

theorem place_finite_pos (h : Fits b (.finite s m e hm)) : 0 < (e + 1074) * 2 ^ 52 + (m : Int) := by
  have := h.2.1
  omega

/-- All numbers that fit are between the infinities. -/
theorem Fits.place_bounds (h : Fits 971 u) :
    place (.infinity .negative) < place u ∧ place u < place (.infinity .positive) := by
  obtain ⟨s, rfl⟩ | ⟨s, m, e, hm, rfl⟩ := h.zero_or_finite
  · have hbound : (0 : Int) < 2047 * 2 ^ 52 := by decide
    exact ⟨Int.neg_neg_of_pos hbound, hbound⟩
  · have hpos := place_finite_pos h
    obtain ⟨⟨hlt, -⟩, -, hhigh⟩ := h
    cases s <;> simp only [place, Sign.apply] <;> omega

theorem swap_compare (a b : Int) : (compare a b).swap = compare (-a) (-b) := by
  rcases Int.lt_trichotomy a b with h | rfl | h
  · rw [Int.compare_eq_lt.mpr h, Int.compare_eq_gt.mpr (Int.neg_lt_neg h), Ordering.swap_lt]
  · rw [Int.compare_eq_eq.mpr rfl, Int.compare_eq_eq.mpr rfl, Ordering.swap_eq]
  · rw [Int.compare_eq_gt.mpr h, Int.compare_eq_lt.mpr (Int.neg_lt_neg h), Ordering.swap_gt]

theorem compare_zero (s : Sign) (h : Fits b u) :
    (UnpackedFloat.zero s).compare u = some (compare (place (.zero s)) (place u)) ∧
      u.compare (.zero s) = some (compare (place u) (place (.zero s))) := by
  obtain ⟨t, rfl⟩ | ⟨t, m, e, hm, rfl⟩ := h.zero_or_finite
  · exact ⟨rfl, rfl⟩
  · have hpos := place_finite_pos h
    cases t with
    | negative =>
      have hneg : place (.finite .negative m e hm) < place (.zero s) := Int.neg_neg_of_pos hpos
      rw [Int.compare_eq_gt.mpr hneg, Int.compare_eq_lt.mpr hneg]
      exact ⟨rfl, rfl⟩
    | positive =>
      replace hpos : place (.zero s) < place (.finite .positive m e hm) := hpos
      rw [Int.compare_eq_lt.mpr hpos, Int.compare_eq_gt.mpr hpos]
      exact ⟨rfl, rfl⟩

theorem compare_finite (h : Fits b (.finite s m e hm)) (h' : Fits b (.finite s' m' e' hm')) :
    (UnpackedFloat.finite s m e hm).compare (.finite s' m' e' hm') =
      some (compare (place (.finite s m e hm)) (place (.finite s' m' e' hm'))) := by
  have hpos := place_finite_pos h
  have hpos' := place_finite_pos h'
  have hthen := compare_exponents_then h h'
  cases s with
  | negative =>
    cases s' with
    | negative => exact congrArg some ((congrArg Ordering.swap hthen).trans (swap_compare _ _))
    | positive =>
      exact congrArg some (Int.compare_eq_lt.mpr ((Int.neg_neg_of_pos hpos).trans hpos')).symm
  | positive =>
    cases s' with
    | negative =>
      exact congrArg some (Int.compare_eq_gt.mpr ((Int.neg_neg_of_pos hpos').trans hpos)).symm
    | positive => exact congrArg some hthen

/-- Numbers that fit are in the order of their places. -/
theorem Fits.compare (hu : Fits b u) (hv : Fits b v) :
    u.compare v = some (Ord.compare (place u) (place v)) := by
  obtain ⟨s, rfl⟩ | ⟨s, m, e, hm, rfl⟩ := hu.zero_or_finite
  · exact (compare_zero s hv).1
  · obtain ⟨s', rfl⟩ | ⟨s', m', e', hm', rfl⟩ := hv.zero_or_finite
    · exact (compare_zero s' hu).2
    · exact compare_finite hu hv

/-- Next to the infinities as well. -/
theorem compare_infinity (s : Sign) (h : Fits 971 u) :
    (UnpackedFloat.infinity s).compare u = some (compare (place (.infinity s)) (place u)) ∧
      u.compare (.infinity s) = some (compare (place u) (place (.infinity s))) := by
  obtain ⟨hlow, hhigh⟩ := h.place_bounds
  cases s with
  | negative =>
    rw [Int.compare_eq_lt.mpr hlow, Int.compare_eq_gt.mpr hlow]
    obtain ⟨t, rfl⟩ | ⟨t, m, e, hm, rfl⟩ := h.zero_or_finite <;> exact ⟨rfl, rfl⟩
  | positive =>
    rw [Int.compare_eq_gt.mpr hhigh, Int.compare_eq_lt.mpr hhigh]
    obtain ⟨t, rfl⟩ | ⟨t, m, e, hm, rfl⟩ := h.zero_or_finite <;> exact ⟨rfl, rfl⟩

/-- A double that is not NaN is finite or infinite. -/
theorem fits_or_infinity (hx : x.isNaN = false) :
    Fits 971 (parts x) ∨ ∃ s, parts x = .infinity s := by
  change (parts x).isNaN = false at hx
  cases hparts : parts x with
  | zero s => exact .inl trivial
  | finite s m e hm => exact .inl (parts_fits hparts)
  | infinity s => exact .inr ⟨s, rfl⟩
  | notANumber =>
    rw [hparts] at hx
    cases hx

theorem lt_iff_compare : x < y ↔ (parts x).compare (parts y) = some .lt := by
  change decide (((parts x).compare (parts y) == some .lt) = true) = true ↔ _
  rw [decide_eq_true_iff, beq_iff_eq]

theorem beq_iff_compare : (x == y) = true ↔ (parts x).compare (parts y) = some .eq := by
  change ((parts x).compare (parts y) == some .eq) = true ↔ _
  rw [beq_iff_eq]

section NotNaN

variable (hx : x.isNaN = false) (hy : y.isNaN = false)
include hx hy

/-- Doubles are in the order of their places. -/
theorem compare_parts :
    (parts x).compare (parts y) = some (compare (place (parts x)) (place (parts y))) := by
  rcases fits_or_infinity hx with hu | ⟨s, hs⟩
  · rcases fits_or_infinity hy with hv | ⟨t, ht⟩
    · exact hu.compare hv
    · rw [ht]
      exact (compare_infinity t hu).2
  · rw [hs]
    rcases fits_or_infinity hy with hv | ⟨t, ht⟩
    · exact (compare_infinity s hv).1
    · rw [ht]
      cases s <;> cases t <;> rfl

theorem lt_iff_place : x < y ↔ place (parts x) < place (parts y) := by
  rw [lt_iff_compare, compare_parts hx hy, Option.some.injEq, Int.compare_eq_lt]

theorem beq_iff_place : (x == y) = true ↔ place (parts x) = place (parts y) := by
  rw [beq_iff_compare, compare_parts hx hy, Option.some.injEq, Int.compare_eq_eq]

/-- Two doubles are in the order of their places, unless one of them is NaN. -/
theorem compareFloats?_eq :
    Value.compareFloats? x y = some (compare (place (parts x)) (place (parts y))) := by
  simp only [Value.compareFloats?, lt_iff_place hx hy, lt_iff_place hy hx, beq_iff_place hx hy]
  rcases Int.lt_trichotomy (place (parts x)) (place (parts y)) with h | h | h
  · rw [if_pos h, Int.compare_eq_lt.mpr h]
  · rw [if_neg h.not_lt, if_pos h, Int.compare_eq_eq.mpr h]
  · rw [if_neg h.not_gt, if_neg h.ne', if_pos h, Int.compare_eq_gt.mpr h]

end NotNaN

end Comparison

end Spreadsheet.Number
