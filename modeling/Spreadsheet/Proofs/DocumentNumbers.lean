import Spreadsheet.Json.Printer
import Spreadsheet.Proofs.Retyping

/-!
# Numbers in documents

A number that stands in a document becomes the text of a cell before the cell makes a number of it
again. Documents write doubles in their own way: a whole number gets a zero behind the point, and
numbers that are very large or very small get a power of ten. For a cell this decides the type. The
text of a double always has a point or a power of ten, so it is no integer, and the cell reads the
double it was written from, the sign of zero included. The text of an integer has neither, so it is
read as an integer.

Results:
1. `marked_positionalText`, `marked_scientificText`: the numerals that documents write for doubles;
2. `exists_marked_write`: such a numeral is the double, and no integer;
3. `ofText_intText`, `ofText_floatText`: a cell keeps the number of a document with its type.
-/

namespace Spreadsheet

open Text Number

namespace Number

open Float.Model (UnpackedFloat)
open Float.Model.UnpackedFloat (Sign)

/-! ## Numerals that are no integers -/

/-- The numeral has a point or a power of ten. -/
def Numeral.IsMarked (p : Numeral) : Prop :=
  ¬(p.fraction = none ∧ p.power = none)

namespace Numeral

variable {p : Numeral}

theorem IsMarked.of_fraction {ds : List Char} (h : p.fraction = some ds) : p.IsMarked := by
  rintro ⟨hnone, -⟩
  exact nomatch h.symm.trans hnone

theorem IsMarked.of_power {q : Power} (h : p.power = some q) : p.IsMarked := by
  rintro ⟨-, hnone⟩
  exact nomatch h.symm.trans hnone

/-- Without a mark the exponent is zero. -/
theorem IsMarked.of_exponent {negative : Bool} {c : Nat} {j : Int}
    (h : p.decimal negative = ⟨negative, c, j⟩) (hj : j ≠ 0) : p.IsMarked := by
  rintro ⟨hpoint, hten⟩
  rw [decimal_of_digits hpoint hten] at h
  exact hj (congrArg Decimal.exponent h).symm

theorem IsMarked.readInt64? (h : p.IsMarked) (s : Sign) : readInt64? (signed s p.chars) = none := by
  rw [Option.eq_none_iff_forall_ne_some]
  intro n hn
  obtain ⟨-, hall, -⟩ := (readInt64?_eq_some_iff p.head_ne_sign.1 p.head_ne_sign.2).mp hn
  exact h (p.forall_isDigit_iff.mp hall)

end Numeral

/-- The text is that of a numeral with a mark, which has the value `v`. -/
def Marked (text : List Char) (v : ℚ) : Prop :=
  ∃ (p : Numeral) (c : Nat) (j : Int), p.chars = text ∧ p.IsMarked ∧
    (∀ negative, p.decimal negative = ⟨negative, c, j⟩) ∧ (c * 10 ^ j : ℚ) = v

/-! ## Doubles in documents -/

/-- Without a power of ten there is a point, if need be with a zero behind it. -/
theorem marked_positionalText (d : Nat) (k : Int) :
    Marked (positionalText documentFormat (decimal d) k) (d * 10 ^ k) := by
  by_cases hk : 0 ≤ k
  · have hall : ∀ c ∈ decimal d ++ List.replicate k.toNat '0', isDigit c = true :=
      List.forall_mem_append.mpr ⟨fun _ => isDigit_of_mem_decimal, fun _ => isDigit_of_mem_zeros⟩
    have hzero : ∀ c ∈ ['0'], isDigit c = true := fun _ => isDigit_of_mem_zeros (j := 1)
    have hvalue : digitsValue (decimal d ++ List.replicate k.toNat '0' ++ ['0']) =
        d * 10 ^ (k.toNat + 1) := by
      rw [List.append_assoc, ← List.replicate_succ', digitsValue_append_zeros,
        digitsValue_decimal]
    refine ⟨⟨decimal d ++ List.replicate k.toNat '0', some ['0'], none, hall, hzero, by simp⟩,
      d * 10 ^ (k.toNat + 1), -1, ?_, .of_fraction rfl, fun negative => ?_, ?_⟩
    · rw [positionalText, if_pos hk]
      rfl
    · rw [Numeral.decimal, Numeral.digits]
      dsimp only
      rw [Option.getD_some, hvalue]
      rfl
    · have htoNat : ((k.toNat : Nat) : Int) = k := Int.toNat_of_nonneg hk
      push_cast
      rw [pow_succ, ← zpow_natCast, htoNat, zpow_neg_one]
      ring
  · have htoNat : -((-k).toNat : Int) = k := by omega
    obtain ⟨p, hchars, hdecimal⟩ := exists_numeral_placePoint d (j := (-k).toNat) (by omega)
    rw [htoNat] at hdecimal
    refine ⟨p, d, k, ?_, .of_exponent (hdecimal false) (by omega), hdecimal, rfl⟩
    rw [hchars, positionalText, if_neg hk]

/-- A power of ten with its sign, whichever it is. -/
def Power.ofInt : Int → Power
  | .ofNat n => ⟨'e', some '+', decimal n, .inl rfl, by simp, decimal_ne_nil n,
      fun _ => isDigit_of_mem_decimal⟩
  | .negSucc n => ⟨'e', some '-', decimal (n + 1), .inl rfl, by simp, decimal_ne_nil (n + 1),
      fun _ => isDigit_of_mem_decimal⟩

theorem Power.chars_ofInt (k : Int) :
    (Power.ofInt k).chars = (if 0 ≤ k then ['e', '+'] else ['e']) ++ signedDecimal k := by
  cases k with
  | ofNat n =>
    have hsign : 0 ≤ Int.ofNat n := Int.natCast_nonneg n
    rw [if_pos hsign]
    rfl
  | negSucc n => rfl

theorem Power.value_ofInt (k : Int) : (Power.ofInt k).value = k := by
  cases k with
  | ofNat n => exact congrArg Int.ofNat (digitsValue_decimal n)
  | negSucc n =>
    have hvalue : (digitsValue (decimal (n + 1)) : Int) = n + 1 := by
      rw [digitsValue_decimal]
      rfl
    exact congrArg Neg.neg hvalue

/-- Digits with a power of ten, all but the first behind a point. -/
def Numeral.leading (c : Char) (cs : List Char) (h : ∀ d ∈ c :: cs, isDigit d = true)
    (power : Power) : Numeral where
  whole := [c]
  fraction := if cs = [] then none else some cs
  power := some power
  isDigit_of_mem_whole := fun _ hd => h _ (List.mem_cons.mpr (.inl (List.mem_singleton.mp hd)))
  isDigit_of_mem_fraction := by
    intro d hd
    split at hd
    · exact nomatch hd
    · exact h d (List.mem_cons_of_mem c hd)
  digits_ne_nil := List.cons_ne_nil _ _

theorem Numeral.chars_leading (c : Char) (cs : List Char) (h) (power : Power) :
    (leading c cs h power).chars = placePoint (c :: cs) cs.length ++ power.chars := by
  have hpoint : placePoint (c :: cs) cs.length = c :: if cs = [] then [] else '.' :: cs := by
    simp only [placePoint, List.length_cons, Nat.sub_self, List.replicate_zero, List.nil_append,
      Nat.add_sub_cancel_left, List.take_succ_cons, List.take_zero, List.drop_succ_cons,
      List.drop_zero, List.isEmpty_iff]
    split <;> rfl
  rw [hpoint, chars, pointed, leading]
  dsimp only
  split <;> rfl

theorem Numeral.decimal_leading (c : Char) (cs : List Char) (h) (power : Power)
    (negative : Bool) : (leading c cs h power).decimal negative =
      ⟨negative, digitsValue (c :: cs), power.value - cs.length⟩ := by
  have hfraction : (leading c cs h power).fraction.getD [] = cs := by
    rw [leading]
    dsimp only
    split
    · next hnil => exact hnil.symm
    · rfl
  rw [decimal, digits, hfraction]
  rfl

/-- With a power of ten there is one digit before the point. -/
theorem marked_scientificText (d : Nat) (k : Int) :
    Marked (scientificText (decimal d) k) (d * 10 ^ k) := by
  have hall : ∀ c ∈ decimal d, isDigit c = true := fun _ => isDigit_of_mem_decimal
  have hvalue := digitsValue_decimal d
  obtain ⟨c, cs, hcons⟩ := List.exists_cons_of_ne_nil (decimal_ne_nil d)
  rw [hcons] at hall hvalue ⊢
  have hlength : (((c :: cs).length : Nat) : Int) - 1 = cs.length := by simp
  refine ⟨.leading c cs hall (.ofInt (k + cs.length)), d, k, ?_, .of_power rfl,
    fun negative => ?_, rfl⟩
  · rw [Numeral.chars_leading, Power.chars_ofInt, scientificText, hlength, ← List.append_assoc]
    rfl
  · rw [Numeral.decimal_leading, hvalue, Power.value_ofInt, Int.add_sub_cancel]

/-- What a document shows of a positive double is a numeral with a mark in its interval. -/
theorem exists_marked_magnitude {m : Nat} {e : Int} (hm : 0 < m) (hbits : m < 2 ^ 53)
    (hlow : -1074 ≤ e) (hhigh : e ≤ 971) :
    ∃ v, Marked (documentFormat.magnitude m e) v ∧ InInterval m e v := by
  have hv : InInterval m e ((shortest documentFormat.tie m e).1 *
      10 ^ (shortest documentFormat.tie m e).2) := inInterval_shortest hm hbits hlow hhigh
  refine ⟨_, ?_, hv⟩
  rw [FloatFormat.magnitude]
  dsimp only
  split
  · exact marked_positionalText _ _
  · split
    · exact marked_positionalText _ _
    · exact marked_scientificText _ _

/-- What a document shows of a finite double is a numeral with a mark that is read as the double. -/
theorem exists_marked_write {x : Float} (h : x.isFinite = true) : ∃ (s : Sign) (p : Numeral),
    documentFormat.write x = signed s p.chars ∧ p.IsMarked ∧
      (p.decimal (isNegative s)).toFloat = x := by
  obtain ⟨s, hs⟩ | ⟨s, m, e, hm, hparts⟩ := (fits_of_isFinite h).zero_or_finite
  · obtain ⟨p, c, j, hchars, hmarked, hdecimal, hvalue⟩ := marked_positionalText 0 0
    have hc : c = 0 := by
      rw [Nat.cast_zero, zero_mul] at hvalue
      exact_mod_cast (mul_eq_zero.mp hvalue).resolve_right (zpow_ne_zero j (by norm_num))
    have hzero : x = withSign (isNegative s) 0.0 := eq_of_parts (hs.trans (by cases s <;> rfl))
    refine ⟨s, p, ?_, hmarked, ?_⟩
    · rw [FloatFormat.write, hs, hchars]
      rfl
    · rw [hdecimal, hc, hzero]
      rfl
  · obtain ⟨hbits, hlow, hhigh⟩ := parts_bounds hparts
    obtain ⟨v, ⟨p, c, j, hchars, hmarked, hdecimal, hvalue⟩, hv⟩ :=
      exists_marked_magnitude hm hbits hlow hhigh
    refine ⟨s, p, ?_, hmarked, ?_⟩
    · rw [FloatFormat.write, hparts, hchars]
    · rw [hdecimal]
      exact Decimal.toFloat_eq hparts (hvalue ▸ hv)

end Number

/-! ## Cells -/

/-- An integer of a document is an integer in a cell. -/
theorem ofText_intText (n : Int64) :
    Content.ofText (Json.intText n.toInt) = .literal (.int n) :=
  ofText_signedDecimal n

/-- A finite double of a document is the same double in a cell, and never an integer. -/
theorem ofText_floatText {x : Float} (h : x.isFinite = true) :
    Content.ofText (Json.floatText x) = .literal (.float x) := by
  obtain ⟨s, p, hwrite, hmarked, hfloat⟩ := exists_marked_write h
  have htext : (Json.floatText x).toList = signed s p.chars :=
    String.toList_ofList.trans hwrite
  have hread : readFinite? (Json.floatText x).toList = some x :=
    readFinite?_eq_some_iff_decimal.mpr ⟨_, htext ▸ p.readDecimal?_signed_chars s, hfloat, h⟩
  rw [ofText_of_readFinite? htext hread, htext, hmarked.readInt64?]
  rfl

end Spreadsheet
