import Spreadsheet.Formula.Operation
import Spreadsheet.Proofs.Nearest

/-!
# The order of scalars

Scalars are compared in one of four ways, depending on their kinds, and transitivity has to survive
the change from one to another. Beside a scalar of another kind each one counts by where it stands:
a number at its place in the line of doubles, all texts behind the numbers and all booleans behind
the texts. Only two integers, two texts or two booleans are told apart further. This never turns the
order round, but it may add to it: two large integers that stand at the place of the same double are
both equal to it and not to each other.

Results:
1. `compare_eq`: no comparison of two such scalars fails;
2. `spot_le_of_order`, `order_of_spot_lt`: the order never contradicts where the scalars stand;
3. `AtMost.trans_or`, `Same.trans_or`: it is transitive, but for two integers and the double between
   them;
4. `comparison_is_preorder_up_to_rounding`: this, and what the operators answer.
-/

namespace Spreadsheet

open Number

namespace Value

/-! ## Scalars with an order -/

/-- The scalars that can be compared: not empty, no error and not NaN. -/
inductive Comparable : Value → Prop where
  | int (n : Int64) : Comparable (.int n)
  | float {x : Float} (h : x.isNaN = false) : Comparable (.float x)
  | text (s : String) : Comparable (.text s)
  | bool (b : Bool) : Comparable (.bool b)

/-- The first scalar is not larger than the second. -/
def AtMost (a b : Value) : Prop :=
  ∃ o, a.compare b = .ok o ∧ o.isLE = true

/-- Two scalars are equal in the order. -/
def Same (a b : Value) : Prop :=
  a.compare b = .ok .eq

/-- Two integers of more than 53 digits with the double between them to which both are rounded. -/
def Blurred (a b c : Value) : Prop :=
  ∃ (m n : Int64) (x : Float), a = .int m ∧ b = .float x ∧ c = .int n ∧ m ≠ n ∧
    (2 ^ 53 ≤ m.toInt.natAbs ∧ 2 ^ 53 ≤ n.toInt.natAbs) ∧
    (ofInt64 m == x) = true ∧ (ofInt64 n == x) = true

theorem Blurred.symm {a b c : Value} (h : Blurred a b c) : Blurred c b a := by
  obtain ⟨m, n, x, ha, hb, hc, hne, ⟨hm, hn⟩, hmx, hnx⟩ := h
  exact ⟨n, m, x, hc, hb, ha, hne.symm, ⟨hn, hm⟩, hnx, hmx⟩

/-! ## Comparing -/

/-- Where a scalar stands beside one of another kind. -/
def spot : Value → Int
  | .int n => place (parts (ofInt64 n))
  | .float x => place (parts x)
  | .text _ => 2 ^ 63
  | .bool _ => 2 ^ 64
  | _ => 0

/-- The order of two scalars that can be compared. -/
def order : Value → Value → Ordering
  | .int m, .int n => Ord.compare m.toInt n.toInt
  | .text s, .text t => compareTexts s t
  | .bool p, .bool q => Ord.compare p.toNat q.toNat
  | a, b => Ord.compare a.spot b.spot

variable {a b c : Value}

/-- Numbers stand before texts. -/
theorem place_lt (x : Float) : place (parts x) < 2 ^ 63 := by
  cases hx : parts x with
  | zero s => exact Int.pow_pos (by decide)
  | notANumber => exact Int.pow_pos (by decide)
  | infinity s => cases s <;> decide
  | finite s m e hm => exact (parts_fits hx).place_bounds.2.trans (by decide)

theorem place_lt_bool (x : Float) : place (parts x) < 2 ^ 64 :=
  (place_lt x).trans (by decide)

/-- Two numbers that are not both integers are compared as doubles. -/
theorem compareFloats?_getD {x y : Float} (hx : x.isNaN = false) (hy : y.isNaN = false) :
    (match compareFloats? x y with
      | some o => Except.ok o
      | none => .error CellError.num) = .ok (Ord.compare (place (parts x)) (place (parts y))) := by
  rw [compareFloats?_eq hx hy]

/-- No comparison fails. -/
theorem compare_eq (ha : a.Comparable) (hb : b.Comparable) : a.compare b = .ok (a.order b) := by
  cases ha with
  | int m =>
    cases hb with
    | int n => rfl
    | float hy => exact compareFloats?_getD (isNaN_ofInt64 m) hy
    | text t => exact congrArg Except.ok (Int.compare_eq_lt.mpr (place_lt _)).symm
    | bool q => exact congrArg Except.ok (Int.compare_eq_lt.mpr (place_lt_bool _)).symm
  | float hx =>
    cases hb with
    | int n => exact compareFloats?_getD hx (isNaN_ofInt64 n)
    | float hy => exact compareFloats?_getD hx hy
    | text t => exact congrArg Except.ok (Int.compare_eq_lt.mpr (place_lt _)).symm
    | bool q => exact congrArg Except.ok (Int.compare_eq_lt.mpr (place_lt_bool _)).symm
  | text s =>
    cases hb with
    | int n => exact congrArg Except.ok (Int.compare_eq_gt.mpr (place_lt _)).symm
    | float hy => exact congrArg Except.ok (Int.compare_eq_gt.mpr (place_lt _)).symm
    | text t => rfl
    | bool q => rfl
  | bool p =>
    cases hb with
    | int n => exact congrArg Except.ok (Int.compare_eq_gt.mpr (place_lt_bool _)).symm
    | float hy => exact congrArg Except.ok (Int.compare_eq_gt.mpr (place_lt_bool _)).symm
    | text t => rfl
    | bool q => rfl

theorem order_swap (ha : a.Comparable) (hb : b.Comparable) : b.order a = (a.order b).swap := by
  cases ha <;> cases hb <;> simp only [order, compareTexts] <;> exact Std.OrientedCmp.eq_swap

theorem order_self (ha : a.Comparable) : a.order a = .eq := by
  cases ha <;> simp only [order, compareTexts] <;> exact Std.ReflCmp.compare_self

theorem atMost_iff (ha : a.Comparable) (hb : b.Comparable) :
    a.AtMost b ↔ (a.order b).isLE = true := by
  rw [AtMost, compare_eq ha hb]
  exact ⟨fun ⟨_, ho, hle⟩ => Except.ok.inj ho ▸ hle, fun h => ⟨_, rfl, h⟩⟩

theorem same_iff (ha : a.Comparable) (hb : b.Comparable) : a.Same b ↔ a.order b = .eq := by
  rw [Same, compare_eq ha hb, Except.ok.injEq]

theorem same_iff_atMost (ha : a.Comparable) (hb : b.Comparable) :
    a.Same b ↔ a.AtMost b ∧ b.AtMost a := by
  rw [same_iff ha hb, atMost_iff ha hb, atMost_iff hb ha, order_swap ha hb]
  cases a.order b <;> decide

/-! ## Transitivity -/

/-- How two scalars are compared: in a way of their own, or by where they stand. -/
inductive Pair : Value → Value → Prop where
  | ints (m n : Int64) : Pair (.int m) (.int n)
  | texts (s t : String) : Pair (.text s) (.text t)
  | bools (p q : Bool) : Pair (.bool p) (.bool q)
  | spots {a b : Value} (h : a.order b = Ord.compare a.spot b.spot) : Pair a b

theorem Comparable.pair (ha : a.Comparable) (hb : b.Comparable) : Pair a b := by
  cases ha <;> cases hb <;>
    first | exact .ints _ _ | exact .texts _ _ | exact .bools _ _ | exact .spots rfl

/-- The order does not contradict where two scalars stand. -/
theorem spot_le_of_order (h : Pair a b) (hle : (a.order b).isLE = true) : a.spot ≤ b.spot := by
  cases h with
  | ints m n => exact place_ofInt64_le (Std.isLE_compare.mp hle)
  | texts s t => exact Int.le_refl _
  | bools p q => exact Int.le_refl _
  | spots h => exact Std.isLE_compare.mp (h ▸ hle)

theorem order_of_spot_lt (h : Pair a b) (hlt : a.spot < b.spot) : a.order b = .lt := by
  cases h with
  | ints m n =>
    refine Int.compare_eq_lt.mpr (Int.lt_of_not_ge fun hle => ?_)
    exact hlt.not_ge (place_ofInt64_le hle)
  | texts s t => exact absurd hlt (Int.lt_irrefl _)
  | bools p q => exact absurd hlt (Int.lt_irrefl _)
  | spots h => rw [h, Int.compare_eq_lt.mpr hlt]

/-- Two integers at the place of a double between them are blurred by it, or the same. -/
theorem eq_or_blurred {m n : Int64} {x : Float} (hx : x.isNaN = false)
    (hm : (Value.int m).spot = (Value.float x).spot) (hn : (Value.float x).spot = (Value.int n).spot) :
    m = n ∨ Blurred (.int m) (.float x) (.int n) := by
  by_cases hne : m = n
  · exact .inl hne
  · have hplaces : signedPlace m.toInt = signedPlace n.toInt := by
      rw [← (parts_ofInt64 m).2, ← (parts_ofInt64 n).2]
      exact hm.trans hn
    have hlarge := (eq_of_signedPlace_eq hplaces).resolve_left (mt Int64.toInt_inj.mp hne)
    exact .inr ⟨m, n, x, rfl, rfl, rfl, hne, hlarge,
      (beq_iff_place (isNaN_ofInt64 m) hx).mpr hm, (beq_iff_place (isNaN_ofInt64 n) hx).mpr hn.symm⟩

theorem isLE_trans {α : Type} [Ord α] [Std.TransOrd α] {x y z : α}
    (h : (Ord.compare x y).isLE = true) (h' : (Ord.compare y z).isLE = true) :
    (Ord.compare x z).isLE = true :=
  Std.TransCmp.isLE_trans h h'

/-- The order is transitive, but for two integers and the double between them. -/
theorem AtMost.trans_or (ha : a.Comparable) (hb : b.Comparable) (hc : c.Comparable)
    (hab : a.AtMost b) (hbc : b.AtMost c) : a.AtMost c ∨ Blurred a b c := by
  rw [atMost_iff ha hb] at hab
  rw [atMost_iff hb hc] at hbc
  rw [atMost_iff ha hc]
  have hspot : a.spot ≤ b.spot := spot_le_of_order (ha.pair hb) hab
  have hspot' : b.spot ≤ c.spot := spot_le_of_order (hb.pair hc) hbc
  rcases (hspot.trans hspot').lt_or_eq with hlt | heq
  · exact .inl (order_of_spot_lt (ha.pair hc) hlt ▸ rfl)
  · -- all three stand in one spot
    have hab' : a.spot = b.spot := hspot.antisymm (heq ▸ hspot')
    have hbc' : b.spot = c.spot := hab'.symm.trans heq
    cases ha.pair hc with
    | spots h =>
      rw [h, Int.compare_eq_eq.mpr heq]
      exact .inl rfl
    | texts s t =>
      cases hb with
      | int n => exact absurd hbc' (place_lt _).ne
      | float hx => exact absurd hbc' (place_lt _).ne
      | bool p => exact absurd hbc' (show (2 : Int) ^ 64 ≠ 2 ^ 63 by decide)
      | text r => exact .inl (isLE_trans hab hbc)
    | bools p q =>
      cases hb with
      | int n => exact absurd hbc' (place_lt_bool _).ne
      | float hx => exact absurd hbc' (place_lt_bool _).ne
      | text s => exact absurd hbc' (show (2 : Int) ^ 63 ≠ 2 ^ 64 by decide)
      | bool r => exact .inl (isLE_trans hab hbc)
    | ints m n =>
      cases hb with
      | text s => exact absurd hab' (place_lt _).ne
      | bool p => exact absurd hab' (place_lt_bool _).ne
      | int k => exact .inl (isLE_trans hab hbc)
      | float hx =>
        refine (eq_or_blurred hx hab' hbc').imp_left fun h => ?_
        rw [h, order_self (.int n)]
        rfl

/-- So is equality. -/
theorem Same.trans_or (ha : a.Comparable) (hb : b.Comparable) (hc : c.Comparable)
    (hab : a.Same b) (hbc : b.Same c) : a.Same c ∨ Blurred a b c := by
  rw [same_iff_atMost ha hb] at hab
  rw [same_iff_atMost hb hc] at hbc
  rw [same_iff_atMost ha hc]
  rcases AtMost.trans_or ha hb hc hab.1 hbc.1 with hac | h
  · exact (AtMost.trans_or hc hb ha hbc.2 hab.2).imp (⟨hac, ·⟩) Blurred.symm
  · exact .inr h

/-- Two integers that are blurred are not the same, but the double is the same as both. -/
theorem Blurred.not_same (hb : b.Comparable) (h : Blurred a b c) :
    a.Same b ∧ b.Same c ∧ ¬a.Same c := by
  obtain ⟨m, n, x, rfl, rfl, rfl, hne, -, hm, hn⟩ := h
  cases hb with
  | float hx =>
    rw [beq_iff_place (isNaN_ofInt64 _) hx] at hm hn
    rw [same_iff (.int m) (.float hx), same_iff (.float hx) (.int n), same_iff (.int m) (.int n)]
    refine ⟨Int.compare_eq_eq.mpr hm, Int.compare_eq_eq.mpr hn.symm, fun h => ?_⟩
    exact hne (Int64.toInt_inj.mp (Int.compare_eq_eq.mp h))

end Value

/-! ## Operators -/

namespace Formula

open Value

variable {a b c : Value}

/-- The operators that compare, each with its test. -/
def comparisons : List (BinaryOp × (Ordering → Bool)) :=
  [(.equal, Ordering.isEq), (.notEqual, Ordering.isNe), (.lessThan, Ordering.isLT),
    (.lessOrEqual, Ordering.isLE), (.greaterThan, Ordering.isGT), (.greaterOrEqual, Ordering.isGE)]

theorem ordered_eq (test : Ordering → Bool) (ha : a.Comparable) (hb : b.Comparable) :
    ordered test a b = .bool (test (a.order b)) := by
  have herror : Value.firstError? [a, b] = none := by
    cases ha <;> cases hb <;> rfl
  rw [ordered, Builtin.strict2, herror, compare_eq ha hb]
  rfl

end Formula

open Value Formula in
/-- Scalars that are not empty, no error and not NaN are compared without fault, each is equal to
itself, and exchanging two of them reverses their order; the six operators answer accordingly. The
order is transitive, and so is equality, except in one case: two different integers, both at least
`2 ^ 53` in size, are equal to the double to which both are rounded. -/
theorem comparison_is_preorder_up_to_rounding {a b c : Value} (ha : a.Comparable)
    (hb : b.Comparable) (hc : c.Comparable) :
    (∃ o, (a.compare b = .ok o ∧ b.compare a = .ok o.swap) ∧
      ∀ limits, ∀ p ∈ comparisons, p.1.apply limits a b = .bool (p.2 o)) ∧
    a.compare a = .ok .eq ∧
    (a.AtMost b → b.AtMost c → a.AtMost c ∨ Blurred a b c) ∧
    (a.Same b → b.Same c → a.Same c ∨ Blurred a b c) ∧
    (Blurred a b c → a.Same b ∧ b.Same c ∧ ¬a.Same c) := by
  refine ⟨⟨a.order b, ⟨compare_eq ha hb, ?_⟩, fun limits p hp => ?_⟩, ?_, AtMost.trans_or ha hb hc,
    Same.trans_or ha hb hc, Blurred.not_same hb⟩
  · rw [compare_eq hb ha, order_swap ha hb]
  · simp only [comparisons, List.mem_cons, List.not_mem_nil, or_false] at hp
    rcases hp with rfl | rfl | rfl | rfl | rfl | rfl <;> exact ordered_eq _ ha hb
  · rw [compare_eq ha ha, order_self ha]

open Value in
theorem comparison_is_preorder_up_to_rounding_mixed :
    Comparable (.int 1) ∧ Comparable (.float (ofInt64 1)) ∧ Comparable (.text "a") ∧
      (Value.int 1).AtMost (.text "a") := by
  have hfloat : Comparable (.float (ofInt64 1)) := .float (isNaN_ofInt64 1)
  obtain ⟨-, -, htrans, -, -⟩ :=
    comparison_is_preorder_up_to_rounding (.int 1) hfloat (.text "a")
  have hab : (Value.int 1).Same (.float (ofInt64 1)) :=
    (same_iff (.int 1) hfloat).mpr (Int.compare_eq_eq.mpr rfl)
  have hbc : (Value.float (ofInt64 1)).AtMost (.text "a") :=
    ⟨.lt, (compare_eq hfloat (.text "a")).trans <| congrArg Except.ok <|
      order_of_spot_lt (hfloat.pair (.text "a")) (place_lt (ofInt64 1)), rfl⟩
  refine ⟨.int 1, hfloat, .text "a", (htrans ⟨.eq, hab, rfl⟩ hbc).resolve_right ?_⟩
  rintro ⟨m, n, x, -, -, h, -⟩
  cases h

open Value in
/-- The exception: the integer `2 ^ 53 + 1` is at most the double `2 ^ 53`, which is at most the
integer `2 ^ 53`. -/
theorem comparison_is_not_transitive : ¬∀ a b c : Value, a.Comparable → b.Comparable →
    c.Comparable → a.AtMost b → b.AtMost c → a.AtMost c := by
  intro h
  have hfloat : Comparable (.float (ofInt64 9007199254740992)) := .float (isNaN_ofInt64 _)
  have hplace : (Value.int 9007199254740993).spot = (Value.int 9007199254740992).spot := by
    rw [spot, spot, (parts_ofInt64 _).2, (parts_ofInt64 _).2]
    decide +kernel
  have hab : (Value.int 9007199254740993).Same (.float (ofInt64 9007199254740992)) :=
    (same_iff (.int _) hfloat).mpr (Int.compare_eq_eq.mpr hplace)
  have hbc : (Value.float (ofInt64 9007199254740992)).Same (.int 9007199254740992) :=
    (same_iff hfloat (.int _)).mpr (Int.compare_eq_eq.mpr rfl)
  obtain ⟨o, ho, hle⟩ := h _ _ _ (.int _) hfloat (.int _) ⟨.eq, hab, rfl⟩ ⟨.eq, hbc, rfl⟩
  have hgt : (Value.int 9007199254740993).compare (.int 9007199254740992) = .ok .gt := by
    decide +kernel
  rw [hgt] at ho
  cases ho
  cases hle

end Spreadsheet
