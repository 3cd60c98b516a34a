import Spreadsheet.Value
import Spreadsheet.Proofs.Characters
import Mathlib

/-!
# How wide numbers are

A cell shows a number without a power of ten, so that very large and very small numbers take many
digits. How many follows from two facts about the search for the shortest decimal. It never goes
past the grid of `10 ^ -324`, on which every double has a decimal of its own; and the decimal that it
finds is no larger than the number itself and half a step.

Results:
1. `parts_bounds`: the integer and the power of two of a finite double;
2. `shortest_spec`: where the search for the shortest decimal ends;
3. `length_cellNumber_le`: no number is wider than `numberWidth`;
4. `isAscii_cellNumber`: it consists of ASCII characters.
-/

namespace Spreadsheet.Number

open Float.Model (UnpackedFloat)
open Float.Model.UnpackedFloat (Sign)

/-! ## Doubles -/

theorem unpack_bounds {b : BitVec Float.Model.Format.binary64.numBits} {s : Sign} {m : Nat}
    {e : Int} {h : 0 < m} (hb : UnpackedFloat.unpack .binary64 b = .finite s m e h) :
    m < 2 ^ 53 ∧ -1074 ≤ e ∧ e ≤ 971 := by
  have hbias : (Float.Model.Format.binary64.exponentBias : Int) = 1023 := by decide
  have hexponent : (UnpackedFloat.unpackExponent b).toNat < 2 ^ 11 := BitVec.isLt _
  have hmantissa : (UnpackedFloat.unpackMantissa b).toNat < 2 ^ 52 := BitVec.isLt _
  have hmarked : (1#1 ++ UnpackedFloat.unpackMantissa b).toNat < 2 ^ 53 := BitVec.isLt _
  unfold UnpackedFloat.unpack at hb
  dsimp only at hb
  split at hb
  · split at hb <;> cases hb
  · next hones =>
    have hlast : (UnpackedFloat.unpackExponent b).toNat ≠ 2047 :=
      fun h => hones (BitVec.eq_of_toNat_eq h)
    split at hb
    · next hzeros =>
      -- the smallest doubles have the mantissa as it is and the least exponent
      have hfirst : (UnpackedFloat.unpackExponent b).toNat = 0 := congrArg BitVec.toNat hzeros
      split at hb
      · cases hb
      · simp only [UnpackedFloat.finite.injEq] at hb
        omega
    · next hzeros =>
      have hfirst : (UnpackedFloat.unpackExponent b).toNat ≠ 0 :=
        fun h => hzeros (BitVec.eq_of_toNat_eq h)
      simp only [UnpackedFloat.finite.injEq] at hb
      omega

/-- A finite double other than zero is an integer of 53 bits times a power of two. -/
theorem parts_bounds {x : Float} {s : Sign} {m : Nat} {e : Int} {h : 0 < m}
    (hx : parts x = .finite s m e h) : m < 2 ^ 53 ∧ -1074 ≤ e ∧ e ≤ 971 :=
  unpack_bounds hx

/-! ## The shortest decimal -/

namespace Neighbourhood

variable {n : Neighbourhood} {tie : Tie} {step d x : Nat}

theorem le_high_of_accepts (h : n.accepts x = true) : x ≤ n.high := by
  unfold accepts at h
  split at h <;> rw [Bool.and_eq_true, decide_eq_true_eq, decide_eq_true_eq] at h <;> omega

theorem roundDiv_eq_or (tie : Tie) (a b : Nat) :
    roundDiv tie a b = a / b ∨ roundDiv tie a b = a / b + 1 := by
  unfold roundDiv
  dsimp only
  split
  · exact .inr rfl
  · split
    · cases tie <;> dsimp only <;> omega
    · exact .inl rfl

/-- A decimal on a grid is one of the two next to the value, and reads back as it. -/
theorem accepts_of_onGrid? (h : n.onGrid? tie step = some d) : n.accepts (d * step) = true := by
  unfold onGrid? at h
  dsimp only at h
  split at h
  · next hbelow habove =>
    obtain rfl := Option.some.inj h
    rcases roundDiv_eq_or tie n.value step with hround | hround <;> rw [hround]
    · exact hbelow
    · exact habove
  · next hbelow _ =>
    obtain rfl := Option.some.inj h
    exact hbelow
  · next _ habove =>
    obtain rfl := Option.some.inj h
    exact habove
  · cases h

/-- On a grid that is finer than the distance to the next double there is a decimal. -/
theorem exists_onGrid? (hstep : 0 < step) (hfine : step ≤ n.value - n.low)
    (hhigh : n.value < n.high) : ∃ d, n.onGrid? tie step = some d := by
  have hdiv := Nat.div_add_mod' n.value step
  have hmod := Nat.mod_lt n.value hstep
  -- the next multiple below the value is close enough
  have hbelow : n.accepts (n.value / step * step) = true := by
    unfold accepts
    split <;> rw [Bool.and_eq_true, decide_eq_true_eq, decide_eq_true_eq] <;> omega
  unfold onGrid?
  dsimp only
  rw [hbelow]
  split
  · exact ⟨_, rfl⟩
  · exact ⟨_, rfl⟩
  · next h _ => cases h
  · next h _ => cases h

end Neighbourhood

/-! ### The search -/

section

variable {tie : Tie} {m d : Nat} {e k : Int}

/-- How many binary digits a number has before the point. -/
def wholeBits (m : Nat) (e : Int) : Nat :=
  (m.log2 + 1 + e).toNat

theorem high_le (m : Nat) (e : Int) :
    (4 * m + 2) * 2 ^ (e - 2).toNat ≤ 2 ^ (-(e - 2)).toNat * 2 ^ wholeBits m e := by
  have hlog : m < 2 ^ (m.log2 + 1) := Nat.lt_log2_self
  calc (4 * m + 2) * 2 ^ (e - 2).toNat
      ≤ 2 ^ (m.log2 + 3) * 2 ^ (e - 2).toNat := by
        refine Nat.mul_le_mul_right _ ?_
        rw [show m.log2 + 3 = m.log2 + 1 + 2 from rfl, Nat.pow_add _ _ 2]
        omega
    _ = 2 ^ (m.log2 + 3 + (e - 2).toNat) := (Nat.pow_add 2 _ _).symm
    _ ≤ 2 ^ ((-(e - 2)).toNat + wholeBits m e) := by
        refine Nat.pow_le_pow_right (by decide) ?_
        unfold wholeBits
        omega
    _ = 2 ^ (-(e - 2)).toNat * 2 ^ wholeBits m e := Nat.pow_add 2 _ _

/-- A decimal that reads back is not larger than the number and half a step. -/
theorem candidate?_le (h : candidate? tie m e k = some d) :
    d * 10 ^ k.toNat ≤ 2 ^ wholeBits m e * 10 ^ (-k).toNat := by
  have hle := Neighbourhood.le_high_of_accepts (Neighbourhood.accepts_of_onGrid? h)
  simp only [Neighbourhood.scale, interval, Nat.pow_eq] at hle
  refine Nat.le_of_mul_le_mul_right (c := 2 ^ (-(e - 2)).toNat) ?_ (Nat.two_pow_pos _)
  calc d * 10 ^ k.toNat * 2 ^ (-(e - 2)).toNat
      = d * (10 ^ k.toNat * 2 ^ (-(e - 2)).toNat) := by ring
    _ ≤ (4 * m + 2) * (2 ^ (e - 2).toNat * 10 ^ (-k).toNat) := hle
    _ = (4 * m + 2) * 2 ^ (e - 2).toNat * 10 ^ (-k).toNat := by ring
    _ ≤ 2 ^ (-(e - 2)).toNat * 2 ^ wholeBits m e * 10 ^ (-k).toNat :=
        Nat.mul_le_mul_right _ (high_le m e)
    _ = 2 ^ wholeBits m e * 10 ^ (-k).toNat * 2 ^ (-(e - 2)).toNat := by ring

/-- On a grid with a step of at most a quarter of the distance to the next double there is a
decimal. -/
theorem exists_candidate?_of_le (hm : 0 < m) (hstep : 10 ^ k.toNat * 2 ^ (-(e - 2)).toNat ≤
    2 ^ (e - 2).toNat * 10 ^ (-k).toNat) : ∃ d, candidate? tie m e k = some d := by
  have hlow : (interval m e).low + 1 ≤ 4 * m := by
    unfold interval
    dsimp only
    split <;> omega
  have hunit : 0 < 2 ^ (e - 2).toNat * 10 ^ (-k).toNat :=
    Nat.mul_pos (Nat.two_pow_pos _) (Nat.pow_pos (by decide))
  unfold candidate?
  simp only [Nat.pow_eq]
  generalize 2 ^ (e - 2).toNat * 10 ^ (-k).toNat = unit at *
  refine Neighbourhood.exists_onGrid? (Nat.mul_pos (Nat.pow_pos (by decide)) (Nat.two_pow_pos _))
    ?_ ?_
  · have hscaled : (interval m e).low * unit + unit ≤ 4 * m * unit := calc
      (interval m e).low * unit + unit = ((interval m e).low + 1) * unit := (Nat.succ_mul _ _).symm
      _ ≤ 4 * m * unit := Nat.mul_le_mul_right unit hlow
    change _ ≤ 4 * m * unit - (interval m e).low * unit
    omega
  · exact Nat.mul_lt_mul_of_pos_right (show 4 * m < 4 * m + 2 by omega) hunit

/-- On the grid of `10 ^ -324` every double has a decimal: its step is less than a quarter of the
least distance between doubles. -/
def finestGrid : Nat := 324

theorem finestGrid_fine : 2 ^ 1076 ≤ 10 ^ finestGrid := by
  decide +kernel

theorem exists_candidate? (hm : 0 < m) (he : -1074 ≤ e) :
    ∃ d, candidate? tie m e (-finestGrid) = some d := by
  have hneg : (-(finestGrid : Int)).toNat = 0 := by omega
  have hpos : (- -(finestGrid : Int)).toNat = finestGrid := by omega
  refine exists_candidate?_of_le hm ?_
  rw [hneg, hpos, Nat.pow_zero, Nat.one_mul]
  calc 2 ^ (-(e - 2)).toNat ≤ 2 ^ 1076 := Nat.pow_le_pow_right (by decide) (by omega)
    _ ≤ 10 ^ finestGrid := finestGrid_fine
    _ ≤ 2 ^ (e - 2).toNat * 10 ^ finestGrid := Nat.le_mul_of_pos_left _ (Nat.two_pow_pos _)

/-- Where a search from a grid down ends: at a decimal that reads back, or with none after the last
grid; in either case not past a grid that has one. -/
theorem searchGrids_spec (tie : Tie) (m : Nat) (e : Int) (fuel : Nat) (k : Int) :
    k - fuel ≤ (searchGrids tie m e fuel k).2 ∧ (searchGrids tie m e fuel k).2 ≤ k ∧
      ((searchGrids tie m e fuel k).1 = 0 ∨
        candidate? tie m e (searchGrids tie m e fuel k).2 = some (searchGrids tie m e fuel k).1) ∧
      ∀ j d, k - fuel < j → j ≤ k → candidate? tie m e j = some d →
        j ≤ (searchGrids tie m e fuel k).2 := by
  induction fuel generalizing k with
  | zero =>
    rw [searchGrids]
    exact ⟨by simp, Int.le_refl k, .inl rfl, fun j d hlow hhigh _ => by omega⟩
  | succ fuel ih =>
    rw [searchGrids]
    split
    · next d hd => exact ⟨by dsimp only; omega, Int.le_refl k, .inr hd, fun j d _ hhigh _ => hhigh⟩
    · next hnone =>
      -- this grid has no decimal, so what holds of the finer ones holds from here
      obtain ⟨hlow, hhigh, hresult, hleast⟩ := ih (k - 1)
      refine ⟨by omega, by omega, hresult, fun j d hj hjk hd => ?_⟩
      have hne : j ≠ k := by
        rintro rfl
        rw [hnone] at hd
        cases hd
      exact hleast j d (by omega) (by omega) hd

/-- The digits and the exponent that are written. -/
theorem shortest_spec (hm : 0 < m) (hbits : m < 2 ^ 53) (hlow : -1074 ≤ e) (hhigh : e ≤ 971)
    (h : shortest tie m e = (d, k)) :
    -finestGrid ≤ k ∧ k ≤ 309 ∧ (k < 0 → wholeBits m e ≤ 76) ∧ (0 < wholeBits m e → -23 ≤ k) ∧
      d * 10 ^ k.toNat ≤ 2 ^ wholeBits m e * 10 ^ (-k).toNat := by
  have hlog : m.log2 < 53 := (Nat.log2_lt (Nat.ne_of_gt hm)).mpr hbits
  obtain ⟨hfuel, hstart, hresult, hleast⟩ := searchGrids_spec tie m e 24 (leadingBound m e)
  obtain ⟨least, hcandidate⟩ : ∃ d, candidate? tie m e (-finestGrid) = some d :=
    exists_candidate? hm hlow
  have hleast := hleast (-finestGrid) least
  unfold shortest at h
  rw [h] at hfuel hstart hresult hleast
  dsimp only at hfuel hstart hresult hleast
  have hgrid : (finestGrid : Int) = 324 := rfl
  have hbound : leadingBound m e = (m.log2 + 1 + e) * 30103 / 100000 + 1 := rfl
  refine ⟨?_, by omega, ?_, ?_, ?_⟩
  · -- had the search gone past the finest grid, it would have ended there
    by_contra hpast
    exact hpast (hleast (by omega) (by omega) hcandidate)
  · intro hneg
    unfold wholeBits
    omega
  · intro hwhole
    unfold wholeBits at hwhole
    omega
  · rcases hresult with rfl | hd
    · rw [Nat.zero_mul]
      exact Nat.zero_le _
    · exact candidate?_le hd

theorem wholeBits_le (hm : 0 < m) (hbits : m < 2 ^ 53) (hhigh : e ≤ 971) :
    wholeBits m e ≤ 1024 := by
  have hlog : m.log2 < 53 := (Nat.log2_lt (Nat.ne_of_gt hm)).mpr hbits
  unfold wholeBits
  omega

end

/-! ## Widths -/

theorem length_decimal_le {n k : Nat} (h : n < 10 ^ k) (hk : 0 < k) : (decimal n).length ≤ k :=
  (Nat.length_toDigits_le_iff (by decide) hk).mpr h

/-- The digits of a number that has zeros behind them. -/
theorem length_decimal_add_le {n j k : Nat} (hn : 0 < n) (h : n * 10 ^ j < 10 ^ k) :
    (decimal n).length + j ≤ k := by
  have hj : j < k := by
    refine (Nat.pow_lt_pow_iff_right (by decide)).mp (Nat.lt_of_le_of_lt ?_ h)
    exact Nat.le_mul_of_pos_left _ hn
  have hlt : n < 10 ^ (k - j) := by
    refine Nat.lt_of_mul_lt_mul_right (a := 10 ^ j) ?_
    rwa [← Nat.pow_add, Nat.sub_add_cancel (Nat.le_of_lt hj)]
  have := length_decimal_le hlt (by omega)
  omega

theorem length_placePoint_le (digits : List Char) (places : Nat) :
    (placePoint digits places).length ≤ max (places + 1) digits.length + 1 := by
  unfold placePoint
  dsimp only
  split
  · simp only [List.length_take, List.length_append, List.length_replicate]
    omega
  · simp only [List.length_take, List.length_append, List.length_replicate, List.length_cons,
      List.length_drop]
    omega

theorem length_signed_le (s : Sign) (cs : List Char) : (signed s cs).length ≤ cs.length + 1 := by
  unfold signed
  split
  · exact Nat.le_refl _
  · exact Nat.le_succ _

/-- The most characters that a cell shows of a number: a sign, a zero, the point and the digits down
to the finest grid. -/
def numberWidth : Nat := finestGrid + 3

section

variable {m d : Nat} {e k : Int}

/-- With zeros behind its digits a number is at most as wide as the largest double. -/
theorem length_whole_le (hk : 0 ≤ k) (hcoarse : k ≤ 309) (hwhole : wholeBits m e ≤ 1024)
    (hsize : d * 10 ^ k.toNat ≤ 2 ^ wholeBits m e * 10 ^ (-k).toNat) :
    (decimal d).length + k.toNat ≤ 310 := by
  have hneg : (-k).toNat = 0 := by omega
  rw [hneg, Nat.pow_zero, Nat.mul_one] at hsize
  rcases Nat.eq_zero_or_pos d with rfl | hd
  · have : (decimal 0).length = 1 := rfl
    omega
  · have hlarge : d * 10 ^ k.toNat < 10 ^ 309 := calc
      d * 10 ^ k.toNat ≤ 2 ^ wholeBits m e := hsize
      _ ≤ 2 ^ 1024 := Nat.pow_le_pow_right (by decide) hwhole
      _ < 10 ^ 309 := by decide +kernel
    exact Nat.le_succ_of_le (length_decimal_add_le hd hlarge)

/-- A number that has digits behind the point has no more of them than the finest grid has places,
or few before the point. -/
theorem length_fraction_le (hk : k < 0) (hfinest : -finestGrid ≤ k) (hnear : wholeBits m e ≤ 76)
    (hfar : 0 < wholeBits m e → -23 ≤ k)
    (hsize : d * 10 ^ k.toNat ≤ 2 ^ wholeBits m e * 10 ^ (-k).toNat) :
    (decimal d).length ≤ finestGrid + 1 := by
  have hpos : k.toNat = 0 := by omega
  rw [hpos, Nat.pow_zero, Nat.mul_one] at hsize
  refine length_decimal_le (Nat.lt_of_le_of_lt hsize ?_) (Nat.succ_pos _)
  rcases Nat.eq_zero_or_pos (wholeBits m e) with hzero | hsome
  · rw [hzero, Nat.pow_zero, Nat.one_mul]
    exact Nat.pow_lt_pow_right (by decide) (by omega)
  · have hplaces : (-k).toNat ≤ 23 := by
      have := hfar hsome
      omega
    calc 2 ^ wholeBits m e * 10 ^ (-k).toNat
        ≤ 2 ^ 76 * 10 ^ 23 :=
          Nat.mul_le_mul (Nat.pow_le_pow_right (by decide) hnear)
            (Nat.pow_le_pow_right (by decide) hplaces)
      _ < 10 ^ (finestGrid + 1) := by decide +kernel

theorem length_magnitude_le (hm : 0 < m) (hbits : m < 2 ^ 53) (hlow : -1074 ≤ e) (hhigh : e ≤ 971) :
    (cellFormat.magnitude m e).length + 1 ≤ numberWidth := by
  obtain ⟨⟨d, k⟩, hshortest⟩ : ∃ r, shortest cellFormat.tie m e = r := ⟨_, rfl⟩
  obtain ⟨hfinest, hcoarse, hnear, hfar, hsize⟩ := shortest_spec hm hbits hlow hhigh hshortest
  have hgrid : finestGrid = 324 := rfl
  unfold FloatFormat.magnitude numberWidth
  rw [hshortest]
  dsimp only [cellFormat]
  unfold positionalText
  split
  · next hk =>
    have hwhole := length_whole_le hk hcoarse (wholeBits_le hm hbits hhigh) hsize
    simp only [Bool.false_eq_true, if_false, List.length_append, List.length_replicate]
    omega
  · next hk =>
    have hpoint := length_placePoint_le (decimal d) (-k).toNat
    have hfraction := length_fraction_le (by omega) hfinest (hnear (by omega)) hfar hsize
    omega

end

theorem length_write_le (x : Float) : (cellFormat.write x).length ≤ numberWidth := by
  have hwidth : numberWidth = 327 := rfl
  unfold FloatFormat.write
  split
  · decide
  · exact Nat.le_trans (length_signed_le _ _) (by decide)
  · exact Nat.le_trans (length_signed_le _ _) (by decide)
  · next s m e hm hx =>
    obtain ⟨hbits, hlow, hhigh⟩ := parts_bounds hx
    exact Nat.le_trans (length_signed_le _ _) (length_magnitude_le hm hbits hlow hhigh)

/-- The least number below zero is as wide as that. -/
example : (cellFormat.write (-5e-324)).length = numberWidth := by decide +kernel

theorem length_signedDecimal_le {n : Int} {k : Nat} (h : n.natAbs < 10 ^ k) (hk : 0 < k) :
    (signedDecimal n).length ≤ k + 1 := by
  cases n with
  | ofNat n => exact Nat.le_succ_of_le (length_decimal_le h hk)
  | negSucc n => exact Nat.succ_le_succ (length_decimal_le h hk)

theorem natAbs_wholePart_lt (x : Float) : (wholePart x).natAbs < 10 ^ 309 := by
  unfold wholePart
  split
  · next s m e hm hx =>
    obtain ⟨hbits, -, hhigh⟩ := parts_bounds hx
    have hmagnitude : (if 0 ≤ e then m * Nat.pow 2 e.toNat else m / Nat.pow 2 (-e).toNat) ≤
        2 ^ 53 * 2 ^ e.toNat := by
      split
      · exact Nat.mul_le_mul_right _ (Nat.le_of_lt hbits)
      · calc m / Nat.pow 2 (-e).toNat
            ≤ m := Nat.div_le_self _ _
          _ ≤ 2 ^ 53 := Nat.le_of_lt hbits
          _ ≤ 2 ^ 53 * 2 ^ e.toNat := Nat.le_mul_of_pos_right _ (Nat.two_pow_pos _)
    have hlast : 2 ^ 53 * 2 ^ e.toNat < 10 ^ 309 := calc
      2 ^ 53 * 2 ^ e.toNat ≤ 2 ^ 53 * 2 ^ 971 :=
        Nat.mul_le_mul_left _ (Nat.pow_le_pow_right (by decide) (by omega))
      _ < 10 ^ 309 := by decide +kernel
    have hlt := Nat.lt_of_le_of_lt hmagnitude hlast
    dsimp only
    split
    · rwa [Int.natAbs_neg]
    · exact hlt
  · decide +kernel

/-! ## Characters -/

/-- The text has ASCII characters only. -/
def IsAscii (cs : List Char) : Prop :=
  ∀ c ∈ cs, c.toNat < 0x80

instance (cs : List Char) : Decidable (IsAscii cs) :=
  List.decidableBAll _ cs

theorem isAscii_append {cs ds : List Char} : IsAscii (cs ++ ds) ↔ IsAscii cs ∧ IsAscii ds :=
  List.forall_mem_append

theorem isAscii_decimal (n : Nat) : IsAscii (decimal n) := by
  intro c hc
  have hdigit := Text.isDigit_iff.mp (isDigit_of_mem_decimal hc)
  exact Nat.lt_of_le_of_lt hdigit.2 (by decide)

theorem isAscii_zeros (n : Nat) : IsAscii (List.replicate n '0') := by
  intro c hc
  rw [List.eq_of_mem_replicate hc]
  decide

theorem isAscii_placePoint {digits : List Char} (h : IsAscii digits) (places : Nat) :
    IsAscii (placePoint digits places) := by
  have hpadded : IsAscii (List.replicate (places + 1 - digits.length) '0' ++ digits) :=
    isAscii_append.mpr ⟨isAscii_zeros _, h⟩
  unfold placePoint
  dsimp only
  split
  · exact fun c hc => hpadded c (List.mem_of_mem_take hc)
  · refine isAscii_append.mpr ⟨fun c hc => hpadded c (List.mem_of_mem_take hc), ?_⟩
    exact List.forall_mem_cons.mpr ⟨by decide, fun c hc => hpadded c (List.mem_of_mem_drop hc)⟩

theorem isAscii_positionalText {digits : List Char} (h : IsAscii digits) (k : Int) :
    IsAscii (positionalText cellFormat digits k) := by
  unfold positionalText
  split
  · exact isAscii_append.mpr ⟨h, isAscii_zeros _⟩
  · exact isAscii_placePoint h _

theorem isAscii_signed {cs : List Char} (h : IsAscii cs) (s : Sign) : IsAscii (signed s cs) := by
  unfold signed
  split
  · exact List.forall_mem_cons.mpr ⟨by decide, h⟩
  · exact h

theorem isAscii_write (x : Float) : IsAscii (cellFormat.write x) := by
  unfold FloatFormat.write
  split
  · decide
  · exact isAscii_signed (by decide) _
  · exact isAscii_signed (isAscii_positionalText (by decide) 0) _
  · exact isAscii_signed (isAscii_positionalText (isAscii_decimal _) _) _

theorem isAscii_signedDecimal (n : Int) : IsAscii (signedDecimal n) := by
  cases n with
  | ofNat n => exact isAscii_decimal n
  | negSucc n => exact List.forall_mem_cons.mpr ⟨by decide, isAscii_decimal (n + 1)⟩

end Spreadsheet.Number

namespace Spreadsheet

open Number

theorem length_cellNumber_le (x : Float) : (cellNumber x).length ≤ numberWidth := by
  unfold cellNumber
  split
  · decide
  · split
    · rw [String.length_ofList]
      have := length_signedDecimal_le (natAbs_wholePart_lt x) (by decide)
      have hwidth : numberWidth = 327 := rfl
      omega
    · rw [String.length_ofList]
      exact length_write_le x

theorem isAscii_cellNumber (x : Float) : IsAscii (cellNumber x).toList := by
  unfold cellNumber
  split
  · decide
  · split
    · rw [String.toList_ofList]
      exact isAscii_signedDecimal _
    · rw [String.toList_ofList]
      exact isAscii_write x

end Spreadsheet
