import Spreadsheet.Proofs.Counts
import Spreadsheet.Proofs.ShortestDecimals

/-!
# Shown numbers that are typed again

What a cell shows of a number can be typed into another cell, or be joined into a text and taken as a
number again, and nothing is lost. An integer comes back as the same integer. A double is shown as a
whole number or by its shortest decimal, with a point or with zeros behind it, and all of these are
numerals whose value lies in the interval of the double. So they are read as the double. Where the
text has no point it may be read as an integer instead, and then the double of that integer is the
same.

Results:
1. `exists_numeral_positionalText`: the numerals that doubles are written as;
2. `ofText_signedDecimal`: an integer is read back;
3. `reads_of_numeral`: a numeral in the interval of a double is read as the double;
4. `shown_numbers_are_typed_back`: all numbers together.
-/

namespace Spreadsheet

open Text Number

namespace Number

open Float.Model (UnpackedFloat)
open Float.Model.UnpackedFloat (Sign)

/-! ## Digits and zeros -/

theorem digitsValue_append_zeros (ds : List Char) (j : Nat) :
    digitsValue (ds ++ List.replicate j '0') = digitsValue ds * 10 ^ j := by
  induction j with
  | zero => rw [List.replicate_zero, List.append_nil, Nat.pow_zero, Nat.mul_one]
  | succ j ih =>
    have hzero : digitValue '0' = 0 := rfl
    rw [List.replicate_succ', ← List.append_assoc, digitsValue_concat, ih, hzero, Nat.pow_succ]
    ring

theorem digitsValue_zeros_append (ds : List Char) (j : Nat) :
    digitsValue (List.replicate j '0' ++ ds) = digitsValue ds := by
  induction j with
  | zero => rfl
  | succ j ih =>
    rw [List.replicate_succ, List.cons_append]
    exact ih

theorem isDigit_of_mem_zeros {j : Nat} {c : Char} (h : c ∈ List.replicate j '0') :
    isDigit c = true := by
  rw [List.eq_of_mem_replicate h]
  rfl

/-! ## Numerals of doubles -/

/-- Digits with a point among them, or with zeros in front if there are too few. -/
theorem exists_numeral_placePoint (d : Nat) {j : Nat} (hj : 0 < j) :
    ∃ p : Numeral, p.chars = placePoint (decimal d) j ∧
      ∀ negative, p.decimal negative = ⟨negative, d, -j⟩ := by
  obtain ⟨padded, hpadded⟩ : ∃ padded, padded =
      List.replicate (j + 1 - (decimal d).length) '0' ++ decimal d := ⟨_, rfl⟩
  have hlength : j + 1 ≤ padded.length := by
    rw [hpadded, List.length_append, List.length_replicate]
    omega
  have hall : ∀ c ∈ padded, isDigit c = true := by
    rw [hpadded]
    exact List.forall_mem_append.mpr
      ⟨fun _ => isDigit_of_mem_zeros, fun _ => isDigit_of_mem_decimal⟩
  have hvalue : digitsValue padded = d := by
    rw [hpadded, digitsValue_zeros_append, digitsValue_decimal]
  have hfraction : (padded.drop (padded.length - j)).length = j := by
    rw [List.length_drop]
    omega
  refine ⟨⟨padded.take (padded.length - j), some (padded.drop (padded.length - j)), none,
    fun c hc => hall c (List.mem_of_mem_take hc), fun c hc => hall c (List.mem_of_mem_drop hc), ?_⟩,
    ?_, ?_⟩
  · rw [Option.getD_some, List.take_append_drop]
    exact List.ne_nil_of_length_pos (by omega)
  · have hne : (padded.drop (padded.length - j)).isEmpty = false :=
      List.isEmpty_eq_false_iff.mpr (List.ne_nil_of_length_pos (by omega))
    rw [placePoint, ← hpadded, hne, if_neg Bool.false_ne_true]
    exact congrArg (_ ++ ·) (List.append_nil _)
  · intro negative
    rw [Numeral.decimal, Numeral.digits]
    dsimp only
    rw [Option.getD_some, List.take_append_drop, hvalue, hfraction, Option.elim_none, Int.zero_sub]

/-- What a cell shows of a decimal without a power of ten is a numeral of the same value. -/
theorem exists_numeral_positionalText (d : Nat) (k : Int) : ∃ (p : Numeral) (c : Nat) (j : Int),
    p.chars = positionalText cellFormat (decimal d) k ∧
      (∀ negative, p.decimal negative = ⟨negative, c, j⟩) ∧ (c * 10 ^ j : ℚ) = d * 10 ^ k := by
  by_cases hk : 0 ≤ k
  · have hall : ∀ c ∈ decimal d ++ List.replicate k.toNat '0', isDigit c = true :=
      List.forall_mem_append.mpr ⟨fun _ => isDigit_of_mem_decimal, fun _ => isDigit_of_mem_zeros⟩
    have hne : decimal d ++ List.replicate k.toNat '0' ≠ [] :=
      List.append_ne_nil_of_left_ne_nil (decimal_ne_nil d) _
    refine ⟨Numeral.ofDigits _ hne hall, d * 10 ^ k.toNat, 0, ?_, fun negative => ?_, ?_⟩
    · rw [Numeral.chars_ofDigits, positionalText, if_pos hk]
      rfl
    · rw [Numeral.decimal_ofDigits, digitsValue_append_zeros, digitsValue_decimal]
    · have htoNat : ((k.toNat : Nat) : Int) = k := Int.toNat_of_nonneg hk
      rw [zpow_zero, mul_one, Nat.cast_mul, Nat.cast_pow, Nat.cast_ofNat, ← zpow_natCast, htoNat]
  · have htoNat : -((-k).toNat : Int) = k := by omega
    obtain ⟨p, hchars, hdecimal⟩ := exists_numeral_placePoint d (j := (-k).toNat) (by omega)
    rw [htoNat] at hdecimal
    refine ⟨p, d, k, ?_, hdecimal, rfl⟩
    rw [hchars, positionalText, if_neg hk]

/-! ## Integers -/

theorem signedDecimal_eq (k : Int) :
    ∃ s : Sign, signedDecimal k = signed s (decimal k.natAbs) ∧ s.apply k.natAbs = k := by
  cases k with
  | ofNat n => exact ⟨.positive, rfl, rfl⟩
  | negSucc n => exact ⟨.negative, rfl, rfl⟩

/-- The digits of a number as a numeral. -/
def decimalNumeral (n : Nat) : Numeral :=
  .ofDigits (decimal n) (decimal_ne_nil n) fun _ => isDigit_of_mem_decimal

theorem chars_decimalNumeral (n : Nat) : (decimalNumeral n).chars = decimal n :=
  Numeral.chars_ofDigits _ _ _

theorem decimal_decimalNumeral (negative : Bool) (n : Nat) :
    (decimalNumeral n).decimal negative = ⟨negative, n, 0⟩ := by
  rw [decimalNumeral, Numeral.decimal_ofDigits, digitsValue_decimal]

/-- An integer is read back from its digits. -/
theorem readInt64?_signedDecimal (n : Int64) : readInt64? (signedDecimal n.toInt) = some n := by
  obtain ⟨s, hs, hvalue⟩ := signedDecimal_eq n.toInt
  have hsign := (decimalNumeral n.toInt.natAbs).head_ne_sign
  rw [chars_decimalNumeral] at hsign
  rw [hs, readInt64?_eq_some_iff hsign.1 hsign.2]
  refine ⟨decimal_ne_nil _, fun _ => isDigit_of_mem_decimal, ?_⟩
  rw [digitsValue_decimal, hvalue, int64?_toInt]

/-- The double of an integer, by its sign and its size. -/
theorem ofInt64_of_apply {n : Int64} {s : Sign} {k : Nat} (hn : n.toInt = s.apply k) (hk : 0 < k) :
    ofInt64 n = withSign (isNegative s) (Float.ofNat k) := by
  rw [ofInt64, hn]
  cases s with
  | positive => rfl
  | negative =>
    obtain ⟨j, rfl⟩ := Nat.exists_eq_succ_of_ne_zero hk.ne'
    rfl

end Number

/-! ## Texts of numbers -/

open Float.Model.UnpackedFloat (Sign)

/-- An integer that is shown is read as the same integer. -/
theorem ofText_signedDecimal (n : Int64) :
    Content.ofText (String.ofList (signedDecimal n.toInt)) = .literal (.int n) := by
  obtain ⟨s, hs, -⟩ := signedDecimal_eq n.toInt
  have hread := readInt64?_signedDecimal n
  rw [← chars_decimalNumeral] at hs
  rw [hs] at hread
  obtain ⟨x, hx⟩ := exists_readFinite?_of_readInt64? hread
  have htext : (String.ofList (signed s (decimalNumeral n.toInt.natAbs).chars)).toList =
      signed s (decimalNumeral n.toInt.natAbs).chars := String.toList_ofList
  rw [hs, ofText_of_readFinite? htext (htext.symm ▸ hx), htext, hread]
  rfl

/-- The text is read as the double: by a cell, as an integer or as a double, and where a number is
wanted. -/
structure ReadsAs (text : String) (x : Float) : Prop where
  cell : ∃ v y, Content.ofText text = .literal v ∧ v.number? = some y ∧ (y == x) = true
  number : ∃ y, (Value.text text).toNumber = .ok y ∧ (y == x) = true

section

variable {text : String} {x : Float} {s : Sign} {m : Nat} {e : Int} {hm : 0 < m}

theorem beq_self_of_fits {b : Int} (h : Fits b (parts x)) : (x == x) = true :=
  (beq_iff_place (isNaN_of_fits h) (isNaN_of_fits h)).mpr rfl

/-- A numeral in the interval of a double is read as the double. -/
theorem reads_of_numeral {p : Numeral} {c : Nat} {j : Int} (hx : parts x = .finite s m e hm)
    (htext : text.toList = signed s p.chars)
    (hdecimal : p.decimal (isNegative s) = ⟨isNegative s, c, j⟩)
    (hv : InInterval m e (c * 10 ^ j)) : ReadsAs text x := by
  have hfits : Fits 971 (parts x) := hx ▸ parts_fits hx
  have hself := beq_self_of_fits hfits
  have hfloat : (p.decimal (isNegative s)).toFloat = x := hdecimal ▸ Decimal.toFloat_eq hx hv
  have hfinite : readFinite? text.toList = some x :=
    readFinite?_eq_some_iff_decimal.mpr
      ⟨_, htext ▸ p.readDecimal?_signed_chars s, hfloat, isFinite_of_fits hfits⟩
  have htrim : trim text.toList = text.toList :=
    htext ▸ trim_eq_self fun _ hc => p.isBlank_of_mem_signed s hc
  refine ⟨⟨_, x, ofText_of_readFinite? htext hfinite, ?_, hself⟩,
    x, (toNumber_text_eq_ok_iff htrim).mpr hfinite, hself⟩
  cases hint : readInt64? text.toList with
  | none => rfl
  | some n =>
    -- the double of the integer is that of its digits
    obtain ⟨k, hk, hn⟩ := p.of_readInt64? s (htext ▸ hint)
    obtain ⟨-, rfl, rfl⟩ := Decimal.mk.inj (hdecimal.symm.trans hk)
    have hpos : 0 < c := by
      have hpos := hv.pos hm
      rw [zpow_zero, mul_one] at hpos
      exact_mod_cast hpos
    have hword : c < 2 ^ 64 := by
      have hlow := n.le_toInt
      have hhigh := n.toInt_lt
      rw [hn] at hlow hhigh
      cases s <;> simp only [Sign.apply] at hlow hhigh <;> omega
    have hsame : ofInt64 n = x := by
      rw [ofInt64_of_apply hn hpos, ← toFloat_of_lt _ hword, ← hk, hfloat]
    exact congrArg some hsame

/-! ## Whole numbers -/

/-- The bound below which whole numbers are shown as integers. -/
theorem parts_wholeBound : ∃ h, parts 1e15 = .finite .positive (8 * 10 ^ 15) (-3) h :=
  ⟨by decide, rfl⟩

theorem exponent_of_abs_lt (hx : parts x = .finite s m e hm) (h : x.abs < 1e15) : e < 0 := by
  have hfits := parts_fits hx
  have habs : parts x.abs = .finite .positive m e hm := by
    have hdef : x.abs = ⟨Float.Model.pack (parts x).abs⟩ := rfl
    rw [hdef, hx]
    exact parts_pack (u := .finite .positive m e hm) hfits
  obtain ⟨hpos, hbound⟩ := parts_wholeBound
  have hbits : Fits 0 (parts 1e15) := by
    rw [hbound]
    exact ⟨⟨by decide, .inl (by decide)⟩, by decide, by decide⟩
  have hnan : x.abs.isNaN = false := isNaN_of_fits (b := 971) (habs ▸ hfits)
  rw [lt_iff_place hnan (isNaN_of_fits hbits), habs, hbound] at h
  obtain ⟨⟨hlt, hleading⟩, -, -⟩ := hfits
  simp only [place, Sign.apply] at h
  omega

/-- A whole number is its whole part. -/
theorem wholeMagnitude_mul (hx : parts x = .finite s m e hm) (h : isWhole x = true) :
    m * 2 ^ e.toNat = wholeMagnitude m e * 2 ^ (-e).toNat := by
  rw [isWhole, hx] at h
  unfold wholeMagnitude
  split
  · next he =>
    have hzero : (-e).toNat = 0 := by omega
    rw [hzero, Nat.pow_zero, Nat.mul_one]
  · next he =>
    have hzero : e.toNat = 0 := by omega
    rw [Bool.or_eq_true, decide_eq_true_iff, beq_iff_eq] at h
    have hdvd : 2 ^ (-e).toNat ∣ m := Nat.dvd_of_mod_eq_zero (h.resolve_left he)
    rw [hzero, Nat.pow_zero, Nat.mul_one, Nat.div_mul_cancel hdvd]

theorem wholeMagnitude_of_isWhole (hx : parts x = .finite s m e hm) (h : isWhole x = true) :
    (wholeMagnitude m e : ℚ) = m * 2 ^ e := by
  have hcast : (m * 2 ^ e.toNat : ℚ) = wholeMagnitude m e * 2 ^ (-e).toNat := by
    exact_mod_cast wholeMagnitude_mul hx h
  rw [pow_toNat (by norm_num), ← mul_assoc] at hcast
  exact (mul_right_cancel₀ (by positivity) hcast).symm

/-- The sign and the digits of a whole part. -/
theorem signedDecimal_apply (s : Sign) {k : Nat} (hk : 0 < k) :
    signedDecimal (s.apply k) = signed s (decimal k) := by
  cases s with
  | positive => rfl
  | negative =>
    obtain ⟨j, rfl⟩ := Nat.exists_eq_succ_of_ne_zero hk.ne'
    rfl

/-! ## Doubles -/

theorem fits_of_isFinite (h : x.isFinite = true) : Fits 971 (parts x) := by
  change (parts x).isFinite = true at h
  cases hparts : parts x with
  | zero s => trivial
  | finite s m e hm => exact parts_fits hparts
  | infinity s =>
    rw [hparts] at h
    exact nomatch h
  | notANumber =>
    rw [hparts] at h
    exact nomatch h

/-- A whole number that is shown as an integer is read as that integer. -/
theorem exists_int_of_isWhole (hfits : Fits 971 (parts x)) (hwhole : isWhole x = true)
    (hlt : x.abs < 1e15) : ∃ k : Int64, k.toInt = wholePart x ∧
      cellNumber x = String.ofList (signedDecimal (wholePart x)) := by
  obtain ⟨s, hs⟩ | ⟨s, m, e, hm, hparts⟩ := hfits.zero_or_finite
  · have hzero : (x == 0.0) = true := by
      rw [beq_iff_place (isNaN_of_fits hfits) isNaN_zero, hs, parts_zero]
      rfl
    have hpart : wholePart x = 0 := by rw [wholePart, hs]
    refine ⟨0, hpart.symm, ?_⟩
    rw [cellNumber, if_pos hzero, hpart]
    rfl
  · have hnonzero : ¬(x == 0.0) = true := by
      rw [beq_iff_place (isNaN_of_fits hfits) isNaN_zero, parts_zero, hparts]
      have hpos := place_finite_pos (hparts ▸ hfits)
      cases s <;> simp only [place, Sign.apply] <;> omega
    have hsmall : wholeMagnitude m e < 2 ^ 53 := by
      have hneg := exponent_of_abs_lt hparts hlt
      rw [wholeMagnitude, if_neg (by omega)]
      exact (Nat.div_le_self _ _).trans_lt (parts_bounds hparts).1
    have hword : ∃ k : Int64, int64? (s.apply (wholeMagnitude m e)) = some k := by
      have hmin : Int64.minValue.toInt = -2 ^ 63 := by decide
      have hmax : Int64.maxValue.toInt = 2 ^ 63 - 1 := by decide
      refine ⟨_, if_pos ?_⟩
      cases s <;> simp only [Sign.apply, hmin, hmax] <;> omega
    obtain ⟨k, hk⟩ := hword
    refine ⟨k, (toInt_of_int64? hk).trans (wholePart_of_parts hparts).symm, ?_⟩
    rw [cellNumber, if_neg hnonzero, if_pos]
    rw [hwhole, decide_eq_true hlt]
    rfl

/-- A double that is shown is read as the double. -/
theorem reads_cellNumber (hfits : Fits 971 (parts x)) : ReadsAs (cellNumber x) x := by
  by_cases hzero : (x == 0.0) = true
  · have hplace : ∀ {y : Float}, parts y = .zero .positive → (y == x) = true := by
      intro y hy
      have hnan : y.isNaN = false := isNaN_of_fits (b := 0) (hy ▸ trivial)
      rw [beq_iff_place (isNaN_of_fits hfits) isNaN_zero, parts_zero] at hzero
      rw [beq_iff_place hnan (isNaN_of_fits hfits), hy, hzero]
    rw [cellNumber, if_pos hzero]
    exact ⟨⟨.int 0, ofInt64 0, ofText_signedDecimal 0, rfl, hplace rfl⟩,
      ⟨0.0, by decide +kernel, hplace rfl⟩⟩
  · obtain ⟨s, hs⟩ | ⟨s, m, e, hm, hparts⟩ := hfits.zero_or_finite
    · rw [beq_iff_place (isNaN_of_fits hfits) isNaN_zero, hs, parts_zero] at hzero
      exact absurd rfl hzero
    · obtain ⟨hbits, hlow, hhigh⟩ := parts_bounds hparts
      rw [cellNumber, if_neg hzero]
      split
      · next hshown =>
        -- the integer is the double exactly
        rw [Bool.and_eq_true, decide_eq_true_iff] at hshown
        have hexact := wholeMagnitude_of_isWhole hparts hshown.1
        have hv : InInterval m e (wholeMagnitude m e * 10 ^ (0 : Int)) := by
          rw [zpow_zero, mul_one, hexact]
          exact inInterval_self hm e
        have hpos : 0 < wholeMagnitude m e := by
          have hpos := hv.pos hm
          rw [zpow_zero, mul_one] at hpos
          exact_mod_cast hpos
        refine reads_of_numeral hparts ?_ (decimal_decimalNumeral _ _) hv
        rw [wholePart_of_parts hparts, signedDecimal_apply s hpos, String.toList_ofList,
          chars_decimalNumeral]
      · obtain ⟨p, c, j, hchars, hdecimal, hvalue⟩ := exists_numeral_positionalText
          (shortest cellFormat.tie m e).1 (shortest cellFormat.tie m e).2
        have hv : InInterval m e (c * 10 ^ j) :=
          hvalue ▸ inInterval_shortest hm hbits hlow hhigh
        refine reads_of_numeral hparts ?_ (hdecimal _) hv
        rw [String.toList_ofList, FloatFormat.write, hparts, hchars]
        rfl

end

/-- Every number that a cell shows is read as the same number: an integer as itself, and a finite
double as a number that equals it, the integer itself if it is shown as one. -/
theorem shown_numbers_are_typed_back :
    (∀ n : Int64, Content.ofText (Value.int n).display = .literal (.int n)) ∧
    ∀ x : Float, x.isFinite = true →
      (∃ v y, Content.ofText (Value.float x).display = .literal v ∧ v.number? = some y ∧
        (y == x) = true) ∧
      (isWhole x = true → x.abs < 1e15 → ∃ k : Int64, k.toInt = wholePart x ∧
        Content.ofText (Value.float x).display = .literal (.int k)) ∧
      ∃ y, (Value.text (Value.float x).display).toNumber = .ok y ∧ (y == x) = true := by
  refine ⟨ofText_signedDecimal, fun x hfinite => ?_⟩
  have hfits := fits_of_isFinite hfinite
  have hreads : ReadsAs (cellNumber x) x := reads_cellNumber hfits
  refine ⟨hreads.cell, fun hwhole hlt => ?_, hreads.number⟩
  obtain ⟨k, hk, hshown⟩ := exists_int_of_isWhole hfits hwhole hlt
  refine ⟨k, hk, ?_⟩
  change Content.ofText (cellNumber x) = _
  rw [hshown, ← hk]
  exact ofText_signedDecimal k

/-- A double that is whole is typed back as an integer, and taken as a number it is the same. -/
theorem shown_numbers_are_typed_back_hundred :
    Float.isFinite 100 = true ∧ isWhole 100 = true ∧ Float.abs 100 < 1e15 ∧
      (∃ k : Int64, k.toInt = wholePart 100 ∧
        Content.ofText (Value.float 100).display = .literal (.int k)) ∧
      ∃ y, (Value.text (Value.float 100).display).toNumber = .ok y ∧ (y == 100) = true := by
  have hfinite : Float.isFinite 100 = true := by decide +kernel
  have hwhole : isWhole 100 = true := by decide +kernel
  have hlt : Float.abs 100 < 1e15 := by decide +kernel
  obtain ⟨-, hint, hnumber⟩ := shown_numbers_are_typed_back.2 100 hfinite
  exact ⟨hfinite, hwhole, hlt, hint hwhole hlt, hnumber⟩

end Spreadsheet
