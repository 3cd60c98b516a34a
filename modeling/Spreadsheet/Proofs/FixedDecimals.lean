import Spreadsheet.Proofs.Retyping
import Spreadsheet.Sheet.Basic

/-!
# Integers with decimals

A style can fix the number of decimals that a cell shows. An integer has none, so it ought to be shown
with that many zeros behind a point. But the decimals of a number are written from a double, and an
integer in such a cell is first rounded to the nearest one. What is shown then are the digits of the
rounded integer. Up to `2 ^ 53` that is the integer itself, and behind `2 ^ 53` it is for those integers
that are doubles. Without decimals the integer is written as it is.

Results:
1. `isWhole_ofInt64`: the double nearest to an integer is a whole number;
2. `writeFixed_of_isWhole`: a whole number with decimals has zeros behind the point;
3. `display_of_int`: what a cell shows that is worth an integer;
4. `fixed_decimals_show_nearest_double`: where this is the integer.
-/

namespace Spreadsheet

open Text Number
open Float.Model (UnpackedFloat)

namespace Number

open Float.Model (UnpackedFloat)
open Float.Model.UnpackedFloat (Sign)

/-! ## Integers as doubles -/

section

variable {x : Float} {s : Sign} {m : Nat} {e : Int} {hm : 0 < m}

theorem isWhole_of_eq {n : Nat} (hx : parts x = .finite s m e hm) (h : (m * 2 ^ e : ℚ) = n) :
    isWhole x = true := by
  rw [isWhole, hx]
  by_cases he : 0 ≤ e
  · exact Bool.or_eq_true_iff.mpr (.inl (decide_eq_true he))
  · have hzero : e.toNat = 0 := by omega
    have hcast : (m : ℚ) = n * 2 ^ (-e).toNat := by
      rw [← h, mul_assoc, ← pow_toNat (by norm_num), hzero, pow_zero, mul_one]
    have hdvd : m = n * 2 ^ (-e).toNat := by exact_mod_cast hcast
    refine Bool.or_eq_true_iff.mpr (.inr (beq_iff_eq.mpr ?_))
    exact Nat.mod_eq_zero_of_dvd (hdvd ▸ Nat.dvd_mul_left _ _)

/-- The double nearest to an integer is a whole number. -/
theorem isWhole_ofInt64 (n : Int64) : isWhole (ofInt64 n) = true := by
  have hfits := (parts_ofInt64 n).1
  obtain ⟨s, hs⟩ | ⟨s, m, e, hm, hparts⟩ := hfits.zero_or_finite
  · rw [isWhole, hs]
  · have hplace := integerPlace_of_parts hparts
    rw [hparts] at hfits
    have hpos := place_finite_pos hfits
    rcases Nat.lt_or_ge n.toInt.natAbs (2 ^ 53) with hsmall | hlarge
    · -- all digits are kept
      have hne : 0 < n.toInt.natAbs := by
        rw [Nat.pos_iff_ne_zero, Ne, ← integerPlace_eq_zero_iff]
        omega
      obtain ⟨m', e', hm', heq, -, hvalue⟩ := exists_of_integerPlace
        (u := .finite .positive m e hm) hfits hplace hne hsmall
      obtain ⟨-, rfl, rfl⟩ := UnpackedFloat.finite.inj heq
      exact isWhole_of_eq hparts hvalue
    · -- the last digit that is kept is a whole number
      have hpower : integerPlace (2 ^ 53) = 1076 * 2 ^ 52 := by decide +kernel
      have hbeyond := integerPlace_mono hlarge
      have he : 0 ≤ e := by
        obtain ⟨⟨hlt, -⟩, -, -⟩ := hfits
        omega
      rw [isWhole, hparts]
      exact Bool.or_eq_true_iff.mpr (.inl (decide_eq_true he))

end

/-! ## Zeros behind the point -/

/-- A point and zeros, if there are any. -/
def zeroFraction (places : Nat) : List Char :=
  if places = 0 then [] else '.' :: List.replicate places '0'

theorem decimal_mul_ten_pow {n : Nat} (hn : 0 < n) (places : Nat) :
    decimal (n * 10 ^ places) = decimal n ++ List.replicate places '0' := by
  induction places with
  | zero => rw [Nat.pow_zero, Nat.mul_one, List.replicate_zero, List.append_nil]
  | succ places ih =>
    have hstep : n * 10 ^ (places + 1) = 10 * (n * 10 ^ places) + 0 := by ring
    have hpos : 0 < n * 10 ^ places := Nat.mul_pos hn (Nat.pow_pos (by decide))
    have hzero : Nat.digitChar 0 = '0' := rfl
    rw [hstep, decimal_concat hpos (by decide), ih, hzero, List.append_assoc,
      ← List.replicate_succ']

/-- Where the zeros behind the point are the last digits. -/
theorem placePoint_of_padded {digits whole : List Char} {places : Nat}
    (h : List.replicate (places + 1 - digits.length) '0' ++ digits =
      whole ++ List.replicate places '0') :
    placePoint digits places = whole ++ zeroFraction places := by
  have hlength : (whole ++ List.replicate places '0').length - places = whole.length := by
    rw [List.length_append, List.length_replicate, Nat.add_sub_cancel]
  rw [placePoint, h, hlength, List.take_left, List.drop_left, zeroFraction]
  by_cases hplaces : places = 0
  · subst hplaces
    exact (List.append_nil whole).symm
  · have hne : (List.replicate places '0').isEmpty = false :=
      List.isEmpty_eq_false_iff.mpr (by simpa using hplaces)
    rw [hne, if_neg Bool.false_ne_true, if_neg hplaces]

theorem placePoint_decimal (n places : Nat) :
    placePoint (decimal (n * 10 ^ places)) places = decimal n ++ zeroFraction places := by
  refine placePoint_of_padded ?_
  rcases Nat.eq_zero_or_pos n with rfl | hn
  · have hzero : decimal 0 = ['0'] := rfl
    rw [Nat.zero_mul, hzero, ← List.replicate_succ']
    rfl
  · have hlength : 0 < (decimal n).length := List.length_pos_iff.mpr (decimal_ne_nil n)
    have hnone : places + 1 - (decimal n ++ List.replicate places '0').length = 0 := by
      rw [List.length_append, List.length_replicate]
      omega
    rw [decimal_mul_ten_pow hn, hnone, List.replicate_zero, List.nil_append]

/-- A whole number is written with zeros behind the point. -/
theorem writeFixed_of_isWhole {x : Float} {b : Int} (hfits : Fits b (parts x))
    (hzero : parts x ≠ .zero .negative) (hwhole : isWhole x = true) (places : Nat) :
    writeFixed places x = signedDecimal (wholePart x) ++ zeroFraction places := by
  obtain ⟨s, hs⟩ | ⟨s, m, e, hm, hparts⟩ := hfits.zero_or_finite
  · have hpoint : placePoint ['0'] places = decimal 0 ++ zeroFraction places := by
      have hdigits := placePoint_decimal 0 places
      rwa [Nat.zero_mul] at hdigits
    cases s with
    | negative => exact absurd hs hzero
    | positive =>
      rw [writeFixed, wholePart, hs]
      exact hpoint
  · have hpos : 0 < wholeMagnitude m e := by
      have hpositive : (0 : ℚ) < m * 2 ^ e := (inInterval_self hm e).pos hm
      rw [← wholeMagnitude_of_isWhole hparts hwhole] at hpositive
      exact_mod_cast hpositive
    have hscaled : roundDiv .even (m * 2 ^ e.toNat * 10 ^ places) (2 ^ (-e).toNat) =
        wholeMagnitude m e * 10 ^ places := by
      rw [wholeMagnitude_mul hparts hwhole, Nat.mul_right_comm,
        roundDiv_mul_self (Nat.two_pow_pos _)]
    rw [wholePart_of_parts hparts, signedDecimal_apply s hpos, writeFixed, hparts]
    simp only [Nat.pow_eq]
    rw [hscaled, placePoint_decimal]
    cases s <;> rfl

end Number

/-! ## Cells -/

/-- An integer with a number of decimals, all of them zeros. -/
def fixedText (k : Int) (places : Nat) : String :=
  String.ofList (signedDecimal k ++ zeroFraction places)

theorem signedDecimal_injective {j k : Int} (h : signedDecimal j = signedDecimal k) : j = k := by
  have hsign : ∀ m n : Nat, decimal m ≠ '-' :: decimal n := by
    intro m n heq
    have hdigit : isDigit '-' = true := isDigit_of_mem_decimal (heq ▸ List.mem_cons_self)
    exact nomatch hdigit
  have hdecimal : ∀ {m n : Nat}, decimal m = decimal n → m = n := by
    intro m n heq
    rw [← digitsValue_decimal m, heq, digitsValue_decimal]
  cases j with
  | ofNat m =>
    cases k with
    | ofNat n => exact congrArg Int.ofNat (hdecimal h)
    | negSucc n => exact absurd h (hsign m _)
  | negSucc m =>
    cases k with
    | ofNat n => exact absurd h.symm (hsign n _)
    | negSucc n => exact congrArg Int.negSucc (Nat.succ.inj (hdecimal (List.cons.inj h).2))

theorem fixedText_inj {j k : Int} {places : Nat} :
    fixedText j places = fixedText k places ↔ j = k := by
  refine ⟨fun h => ?_, fun h => h ▸ rfl⟩
  exact signedDecimal_injective (List.append_cancel_right (String.ofList_injective h))

section

variable {s : Sheet} {row col : Nat} {n : Int64}

/-- The decimals of a cell, if its style has any. -/
def Sheet.decimals? (s : Sheet) (row col : Nat) : Option UInt8 :=
  (s.style? row col).bind Style.decimals

/-- What a cell shows that is worth an integer: with decimals, those of the nearest double. -/
theorem display_of_int (h : s.evaluate row col = .ok (.int n)) : s.display row col =
    .ok (match s.decimals? row col with
      | none => String.ofList (signedDecimal n.toInt)
      | some places => fixedText (wholePart (ofInt64 n)) places.toNat) := by
  have hfits := (parts_ofInt64 n).1
  have hzero : parts (ofInt64 n) ≠ .zero .negative := by
    intro hparts
    have hnone : n.toInt = 0 := by
      rw [← signedPlace_eq_zero_iff, ← (parts_ofInt64 n).2, hparts]
      rfl
    rw [ofInt64, hnone] at hparts
    have hsign : UnpackedFloat.zero .positive = UnpackedFloat.zero .negative := hparts
    cases hsign
  have hfixed : ∀ places, String.ofList (writeFixed places (ofInt64 n)) =
      fixedText (wholePart (ofInt64 n)) places := fun places =>
    congrArg String.ofList (writeFixed_of_isWhole hfits hzero (isWhole_ofInt64 n) places)
  have hshown : s.display row col = .ok (s.formatValue row col (.int n)) := by
    rw [Sheet.display, h]
    rfl
  rw [hshown, Sheet.formatValue, Sheet.decimals?]
  cases hstyle : s.style? row col with
  | none => rfl
  | some style =>
    change Except.ok ((style.formatNumber? (ofInt64 n)).getD _) = _
    rw [Style.formatNumber?, Option.bind_some]
    cases style.decimals with
    | none => rfl
    | some places => exact congrArg Except.ok (hfixed _)

/-- Up to `2 ^ 53` the nearest double is the integer. -/
theorem wholePart_ofInt64_of_le (h : n.toInt.natAbs ≤ 2 ^ 53) :
    wholePart (ofInt64 n) = n.toInt := by
  obtain ⟨k, hk, hexact, -⟩ := wholePart_ofInt64 n
  rw [hk, hexact h, Int.sign_mul_natAbs]

end

/-- A cell that is worth an integer shows it as it is when it has no decimals. With decimals it shows
the nearest double with zeros behind the point. This is the integer just if the integer is a double,
and so in any case up to `2 ^ 53`. -/
theorem fixed_decimals_show_nearest_double (s : Sheet) (row col : Nat) (n : Int64)
    (h : s.evaluate row col = .ok (.int n)) :
    (s.decimals? row col = none →
      s.display row col = .ok (String.ofList (signedDecimal n.toInt))) ∧
    ∀ places, s.decimals? row col = some places →
      s.display row col = .ok (fixedText (wholePart (ofInt64 n)) places.toNat) ∧
      (s.display row col = .ok (fixedText n.toInt places.toNat) ↔
        wholePart (ofInt64 n) = n.toInt) ∧
      (n.toInt.natAbs ≤ 2 ^ 53 →
        s.display row col = .ok (fixedText n.toInt places.toNat)) := by
  have hdisplay := display_of_int h
  refine ⟨fun hnone => ?_, fun places hplaces => ?_⟩
  · rw [hdisplay, hnone]
  · rw [hplaces] at hdisplay
    have hiff : s.display row col = .ok (fixedText n.toInt places.toNat) ↔
        wholePart (ofInt64 n) = n.toInt := by
      rw [hdisplay, Except.ok.injEq, fixedText_inj]
    exact ⟨hdisplay, hiff, fun hsmall => hiff.mpr (wholePart_ofInt64_of_le hsmall)⟩

/-- One cell with a typed integer and a number of decimals. -/
def decimalsSheet (typed : String) (places : UInt8) : Sheet where
  columns := #["A"]
  data := #[#[typed]]
  styles := [((0, 0), { decimals := some places })]

/-- An amount with two decimals. -/
theorem fixed_decimals_show_nearest_double_amount :
    (decimalsSheet "1200" 2).evaluate 0 0 = .ok (.int 1200) ∧
      (decimalsSheet "1200" 2).display 0 0 = .ok (fixedText 1200 2) := by
  have hvalue : (decimalsSheet "1200" 2).evaluate 0 0 = .ok (.int 1200) := by
    rfl
  exact ⟨hvalue, ((fixed_decimals_show_nearest_double _ 0 0 1200 hvalue).2 2 rfl).2.2 (by decide)⟩

/-- The exception: the integer `2 ^ 53 + 1` shows as `2 ^ 53` when it has no digits behind the
point. -/
theorem fixed_decimals_change_integer : ¬∀ (s : Sheet) (row col : Nat) (n : Int64),
    s.evaluate row col = .ok (.int n) → ∀ places, s.decimals? row col = some places →
      s.display row col = .ok (fixedText n.toInt places.toNat) := by
  intro h
  have hvalue : (decimalsSheet "9007199254740993" 0).evaluate 0 0 =
      .ok (.int 9007199254740993) := by
    rfl
  have hshown := h _ 0 0 _ hvalue 0 rfl
  rw [display_of_int hvalue] at hshown
  have hrounded : wholePart (ofInt64 9007199254740993) = 9007199254740993 :=
    fixedText_inj.mp (Except.ok.inj hshown)
  revert hrounded
  decide +kernel

end Spreadsheet
