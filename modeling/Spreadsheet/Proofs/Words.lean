import Spreadsheet.Builtin.Aggregate
import Spreadsheet.Builtin.Math
import Spreadsheet.Formula.Operation
import Spreadsheet.Proofs.Nearest

/-!
# Arithmetic on 64-bit integers

The operations on two integers compute the result over all integers and then ask whether a 64-bit
word can hold it. Some take a detour: a power is first compared as a pair of doubles, and with a
large exponent it is not computed at all; a remainder is refused where the quotient is no word. None
of the detours loses an integer that a word can hold.

Results:
1. `int64Pow?_eq`: a power is found if it is a word, whatever the exponent;
2. `isWord_fmod`: a remainder is a word;
3. `Operates.apply`, `Operates.apply_of_not_isWord`: an operator gives the exact result, or a double
   where that is no word;
4. `negate_isInteger`, `absolute_isInteger`, `remainder_isInteger`: the same for the functions of one
   number and the remainder;
5. `sum_isInteger`: a sum is exact if no sum on the way leaves the words.
-/

namespace Spreadsheet

open Number

namespace Number

/-! ## Words -/

/-- The integers that a 64-bit word can hold. -/
def IsWord (n : Int) : Prop :=
  -2 ^ 63 ≤ n ∧ n < 2 ^ 63

instance (n : Int) : Decidable (IsWord n) :=
  inferInstanceAs (Decidable (_ ∧ _))

variable {n : Int}

theorem isWord_toInt (k : Int64) : IsWord k.toInt :=
  ⟨k.le_toInt, k.toInt_lt⟩

theorem int64?_of_isWord (h : IsWord n) : ∃ k, int64? n = some k ∧ k.toInt = n := by
  have hk : (Int64.ofInt n).toInt = n := Int64.toInt_ofInt_of_le h.1 h.2
  exact ⟨Int64.ofInt n, (congrArg int64? hk).symm.trans (int64?_toInt _), hk⟩

theorem int64?_of_not_isWord (h : ¬IsWord n) : int64? n = none := by
  refine if_neg fun hbounds => h ⟨hbounds.1, ?_⟩
  exact Int.lt_of_le_of_lt hbounds.2 (by decide)

/-- The powers of the three small bases repeat. -/
theorem pow_repeats {base : Int} (h : base.natAbs ≤ 1) (exponent : Nat) :
    base ^ (if exponent < 2 then exponent else 2 + exponent % 2) = base ^ exponent := by
  have hbase : base = -1 ∨ base = 0 ∨ base = 1 := by omega
  split
  · rfl
  · rcases hbase with rfl | rfl | rfl
    · rw [neg_one_pow_eq_pow_mod_two, neg_one_pow_eq_pow_mod_two exponent, Nat.add_mod_left,
        Nat.mod_mod]
    · rw [zero_pow (by omega), zero_pow (by omega)]
    · rw [one_pow, one_pow]

/-- No other base has a power past exponent 63 that is a word. -/
theorem not_isWord_pow {base : Int} {exponent : Nat} (hbase : ¬base.natAbs ≤ 1)
    (hexponent : ¬exponent < 64) : ¬IsWord (base ^ exponent) := by
  intro h
  have hlarge : 2 ^ 64 ≤ (base ^ exponent).natAbs := calc
    2 ^ 64 ≤ 2 ^ exponent := Nat.pow_le_pow_right (by decide) (by omega)
    _ ≤ base.natAbs ^ exponent := Nat.pow_le_pow_left (by omega) exponent
    _ = (base ^ exponent).natAbs := (Int.natAbs_pow base exponent).symm
  have hsmall : (base ^ exponent).natAbs < 2 ^ 64 := by
    obtain ⟨hlow, hhigh⟩ := h
    omega
  exact hlarge.not_gt hsmall

/-- A power is found whatever the exponent, if it is a word. -/
theorem int64Pow?_eq (base : Int64) (exponent : Nat) :
    int64Pow? base exponent = int64? (base.toInt ^ exponent) := by
  unfold int64Pow?
  split
  · next hbase => exact congrArg int64? (pow_repeats hbase exponent)
  · next hbase =>
    split
    · rfl
    · next hexponent => exact (int64?_of_not_isWord (not_isWord_pow hbase hexponent)).symm

/-- A remainder has the sign of the divisor and is smaller. -/
theorem fmod_bounds (m : Int) (h : n ≠ 0) :
    0 ≤ m.fmod n ∧ m.fmod n < n ∨ n < m.fmod n ∧ m.fmod n ≤ 0 := by
  rcases Int.lt_or_gt_of_ne h with hneg | hpos
  · have hlow := Int.fmod_nonneg_of_pos (-m) (Int.neg_pos.mpr hneg)
    have hhigh := Int.fmod_lt_of_pos (-m) (Int.neg_pos.mpr hneg)
    rw [Int.neg_fmod_neg] at hlow hhigh
    exact .inr ⟨Int.lt_of_neg_lt_neg hhigh, Int.nonpos_of_neg_nonneg hlow⟩
  · exact .inl ⟨Int.fmod_nonneg_of_pos m hpos, Int.fmod_lt_of_pos m hpos⟩

theorem isWord_fmod (m : Int) (hn : IsWord n) (h : n ≠ 0) : IsWord (m.fmod n) := by
  obtain ⟨hlow, hhigh⟩ := hn
  rcases fmod_bounds m h with hbounds | hbounds
  · exact ⟨(by decide : -2 ^ 63 ≤ (0 : Int)).trans hbounds.1, hbounds.2.trans hhigh⟩
  · exact ⟨hlow.trans hbounds.1.le, hbounds.2.trans_lt (by decide)⟩

end Number

/-! ## Values -/

/-- A value is an integer. -/
def Value.IsInteger (v : Value) (n : Int) : Prop :=
  ∃ k : Int64, v = .int k ∧ k.toInt = n

/-- A natural number as a value. -/
def Value.whole (n : Nat) : Value :=
  .int (Int64.ofNat n)

theorem Value.whole_isInteger {n : Nat} (h : n < 2 ^ 63) : (whole n).IsInteger n :=
  ⟨_, rfl, Int64.toInt_ofNat_of_lt h⟩

theorem Value.IsInteger.eq_whole {v : Value} {n : Nat} (h : v.IsInteger n) : v = whole n := by
  obtain ⟨k, rfl, hk⟩ := h
  rw [whole, ← Int64.ofInt_toInt k, hk]
  rfl

/-- Arguments without an error among their scalars have no first one. -/
theorem Value.firstError?_of_leavesOf {args vs : List Value} (hargs : leavesOf args = vs)
    (hvs : ∀ v ∈ vs, v.error? = none) : firstError? args = none := by
  rw [firstError?, hargs]
  exact List.findSome?_eq_none_iff.mpr hvs

namespace Formula

/-- The operations on two integers that have an exact result. -/
inductive Operates : BinaryOp → Int → Int → Int → Prop where
  | add (m n : Int) : Operates .add m n (m + n)
  | subtract (m n : Int) : Operates .subtract m n (m - n)
  | multiply (m n : Int) : Operates .multiply m n (m * n)
  | power (m : Int) (k : Nat) (hk : k < 2 ^ 32) (h : m ≠ 0 ∨ k ≠ 0) : Operates .power m k (m ^ k)

variable {u v : Value} {m n j : Int} {op : BinaryOp}

theorem exact_int (f : Int → Int → Int) (real : Float → Float → Float) (k l : Int64) :
    Builtin.strict2 (Builtin.exact f real) (.int k) (.int l) =
      match int64? (f k.toInt l.toInt) with
      | some r => .int r
      | none => .finite (real (ofInt64 k) (ofInt64 l)) := by
  show Value.ofExcept (match int64? (f k.toInt l.toInt) with
    | some r => _
    | none => _) = _
  cases int64? (f k.toInt l.toInt) <;> rfl

theorem exact_isInteger (f : Int → Int → Int) (real : Float → Float → Float)
    (hu : u.IsInteger m) (hv : v.IsInteger n) (h : IsWord (f m n)) :
    (Builtin.strict2 (Builtin.exact f real) u v).IsInteger (f m n) := by
  obtain ⟨k, rfl, rfl⟩ := hu
  obtain ⟨l, rfl, rfl⟩ := hv
  obtain ⟨r, hr, hvalue⟩ := int64?_of_isWord h
  rw [exact_int, hr]
  exact ⟨r, rfl, hvalue⟩

theorem power_isInteger {k : Nat} (hu : u.IsInteger m) (hv : v.IsInteger k) (hk : k < 2 ^ 32)
    (hzero : m ≠ 0 ∨ k ≠ 0) (h : IsWord (m ^ k)) : (Builtin.power u v).IsInteger (m ^ k) := by
  obtain ⟨b, rfl, rfl⟩ := hu
  obtain ⟨e, rfl, he⟩ := hv
  obtain ⟨r, hr, hvalue⟩ := int64?_of_isWord h
  have hwhole : Builtin.wholePower? (.int b) (.int e) = some r := by
    show (if 0 ≤ e.toInt ∧ e.toInt < UInt32.size then int64Pow? b e.toInt.toNat else none) = _
    rw [he, if_pos ⟨Int.natCast_nonneg k, Int.ofNat_lt.mpr hk⟩, Int.toNat_natCast, int64Pow?_eq, hr]
  -- neither of the two cases that are told apart on doubles
  have hsign : ¬((ofInt64 b == 0.0) && decide (ofInt64 e < 0.0)) = true := by
    rw [Bool.and_eq_true, decide_eq_true_iff, ofInt64_lt_zero_iff, he]
    exact fun h => (Int.natCast_nonneg k).not_gt h.2
  have hdefined : ¬((ofInt64 b == 0.0) && (ofInt64 e == 0.0)) = true := by
    rw [Bool.and_eq_true, ofInt64_beq_zero_iff, ofInt64_beq_zero_iff, he, Int.natCast_eq_zero]
    exact not_and_or.mpr hzero
  have hfirst : Value.firstError? [.int b, .int e] = none := rfl
  have hbase : (Value.int b).toNumber = .ok (ofInt64 b) := rfl
  have hexponent : (Value.int e).toNumber = .ok (ofInt64 e) := rfl
  rw [Builtin.power, Builtin.strict2, hfirst]
  dsimp only
  rw [hbase, hexponent]
  dsimp only [bind, Except.bind]
  rw [if_neg hsign, if_neg hdefined, hwhole]
  exact ⟨r, rfl, hvalue⟩

/-- An operator gives the exact result, if that is a word. -/
theorem Operates.apply (h : Operates op m n j) (limits : Limits) (hu : u.IsInteger m)
    (hv : v.IsInteger n) (hj : IsWord j) : (op.apply limits u v).IsInteger j := by
  cases h with
  | add => exact exact_isInteger (· + ·) (· + ·) hu hv hj
  | subtract => exact exact_isInteger (· - ·) (· - ·) hu hv hj
  | multiply => exact exact_isInteger (· * ·) (· * ·) hu hv hj
  | power m k hk hzero => exact power_isInteger hu hv hk hzero hj

/-! ## Beyond the words -/

theorem finite_of_isFinite {x : Float} (h : x.isFinite = true) : Value.finite x = .float x :=
  if_pos h

theorem exact_of_not_isWord (f : Int → Int → Int) (real : Float → Float → Float)
    (hreal : ∀ k l : Int64, (real (ofInt64 k) (ofInt64 l)).isFinite = true)
    (hu : u.IsInteger m) (hv : v.IsInteger n) (h : ¬IsWord (f m n)) :
    ∃ x, Builtin.strict2 (Builtin.exact f real) u v = .float x ∧ x.isFinite = true := by
  obtain ⟨k, rfl, rfl⟩ := hu
  obtain ⟨l, rfl, rfl⟩ := hv
  rw [exact_int, int64?_of_not_isWord h]
  exact ⟨_, finite_of_isFinite (hreal k l), hreal k l⟩

/-- A sum, a difference or a product that is no word is a double. -/
theorem Operates.apply_of_not_isWord (h : Operates op m n j) (limits : Limits)
    (hop : op ≠ .power) (hu : u.IsInteger m) (hv : v.IsInteger n) (hj : ¬IsWord j) :
    ∃ x, op.apply limits u v = .float x ∧ x.isFinite = true := by
  cases h with
  | add => exact exact_of_not_isWord (· + ·) (· + ·) isFinite_add hu hv hj
  | subtract => exact exact_of_not_isWord (· - ·) (· - ·) isFinite_sub hu hv hj
  | multiply => exact exact_of_not_isWord (· * ·) (· * ·) isFinite_mul hu hv hj
  | power => exact absurd rfl hop

/-! ## Functions of one number -/

theorem negated_int (k : Int64) : UnaryOp.negate.apply (.int k) =
    match int64? (-k.toInt) with
    | some r => .int r
    | none => .finite (-ofInt64 k) := by
  show Value.ofExcept (match int64? (-k.toInt) with
    | some r => _
    | none => _) = _
  cases int64? (-k.toInt) <;> rfl

theorem negate_isInteger (hv : v.IsInteger n) (h : IsWord (-n)) :
    (UnaryOp.negate.apply v).IsInteger (-n) := by
  obtain ⟨k, rfl, rfl⟩ := hv
  obtain ⟨r, hr, hvalue⟩ := int64?_of_isWord h
  rw [negated_int, hr]
  exact ⟨r, rfl, hvalue⟩

theorem negate_of_not_isWord (hv : v.IsInteger n) (h : ¬IsWord (-n)) :
    ∃ x, UnaryOp.negate.apply v = .float x ∧ x.isFinite = true := by
  obtain ⟨k, rfl, rfl⟩ := hv
  rw [negated_int, int64?_of_not_isWord h]
  exact ⟨_, finite_of_isFinite (isFinite_neg k), isFinite_neg k⟩

theorem plus_isInteger (hv : v.IsInteger n) : (UnaryOp.plus.apply v).IsInteger n := by
  obtain ⟨k, rfl, rfl⟩ := hv
  exact ⟨k, rfl, rfl⟩

end Formula

namespace Builtin

variable {u v : Value} {m n : Int}

theorem absolute_isInteger (limits : Limits) (hv : v.IsInteger n) (h : IsWord n.natAbs) :
    (absolute limits [v]).IsInteger n.natAbs := by
  obtain ⟨k, rfl, rfl⟩ := hv
  obtain ⟨r, hr, hvalue⟩ := int64?_of_isWord h
  show (Value.ofExcept (match int64? k.toInt.natAbs with
    | some r => _
    | none => _)).IsInteger _
  rw [hr]
  exact ⟨r, rfl, hvalue⟩

/-- The remainder is exact but for the one quotient that is no word. -/
theorem remainder_isInteger (limits : Limits) (hu : u.IsInteger m) (hv : v.IsInteger n)
    (hzero : n ≠ 0) (hleast : ¬(m = -2 ^ 63 ∧ n = -1)) :
    (remainder limits [u, v]).IsInteger (m.fmod n) := by
  obtain ⟨k, rfl, rfl⟩ := hu
  obtain ⟨l, rfl, rfl⟩ := hv
  obtain ⟨r, hr, hvalue⟩ := int64?_of_isWord (isWord_fmod k.toInt (isWord_toInt l) hzero)
  have hl : l ≠ 0 := by
    rintro rfl
    exact hzero rfl
  have hquotient : ¬(k = Int64.minValue ∧ l = -1) := by
    rintro ⟨rfl, rfl⟩
    exact hleast ⟨rfl, rfl⟩
  have hwhole : wholeRemainder? k l = some r := (if_neg hquotient).trans hr
  show (Value.ofExcept (if l = 0 then _ else
    match wholeRemainder? k l with
    | some r => _
    | none => _)).IsInteger _
  rw [if_neg hl, hwhole]
  exact ⟨r, rfl, hvalue⟩

/-! ## Totals -/

/-- Integers are combined exactly as long as no total on the way leaves the words. -/
theorem foldl_step (op : Int → Int → Int) (real : Float → Float → Float) (ks : List Int64)
    (t : Int64) (h : ∀ part, part <+: ks.map Int64.toInt → IsWord (part.foldl op t.toInt)) :
    ∃ r : Int64, (ks.map Value.int).foldl (Total.step op real) (.whole t) = .whole r ∧
      r.toInt = (ks.map Int64.toInt).foldl op t.toInt := by
  induction ks generalizing t with
  | nil => exact ⟨t, rfl, rfl⟩
  | cons k ks ih =>
    have hnext : IsWord (op t.toInt k.toInt) :=
      h [k.toInt] (List.cons_prefix_cons.mpr ⟨rfl, List.nil_prefix⟩)
    obtain ⟨r, hr, hvalue⟩ := int64?_of_isWord hnext
    have hstep : Total.step op real (.whole t) (.int k) = .whole r := by
      rw [Total.step, hr]
    obtain ⟨q, hfold, hq⟩ := ih r fun part hpart => by
      have := h (k.toInt :: part) (List.cons_prefix_cons.mpr ⟨rfl, hpart⟩)
      rwa [List.foldl_cons, ← hvalue] at this
    refine ⟨q, ?_, ?_⟩
    · rw [List.map_cons, List.foldl_cons, hstep, hfold]
    · rw [hq, hvalue, List.map_cons, List.foldl_cons]

theorem sum_isInteger (limits : Limits) {args : List Value} {ks : List Int64}
    (hargs : Value.leavesOf args = ks.map .int)
    (h : ∀ part, part <+: ks.map Int64.toInt → IsWord part.sum) :
    (sum limits args).IsInteger (ks.map Int64.toInt).sum := by
  have hfirst : Value.firstError? args = none :=
    Value.firstError?_of_leavesOf hargs (List.forall_mem_map.mpr fun _ _ => rfl)
  obtain ⟨r, hfold, hvalue⟩ := foldl_step (· + ·) (· + ·) ks 0 fun part hpart => by
    rw [Int64.toInt_zero, ← List.sum_eq_foldl]
    exact h part hpart
  rw [Int64.toInt_zero, ← List.sum_eq_foldl] at hvalue
  rw [sum, strict, hfirst, hargs, hfold]
  exact ⟨r, rfl, hvalue⟩

end Builtin

end Spreadsheet
