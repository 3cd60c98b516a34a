import Spreadsheet.Builtin.Aggregate
import Spreadsheet.Proofs.Comparison

/-!
# The largest and the smallest number

`MAX` and `MIN` go through all numbers of their arguments and keep the best one so far. They compare
doubles, so an integer counts by the double that it is rounded to. The comparison operators do that
only where one side is a double; two integers they compare exactly. Both agree on all numbers but
integers of more than 53 binary digits: of two such integers with the same double, `MAX` and `MIN`
keep the one that comes first.

Results:
1. `Leads.keep`, `Leads.beat`: what one more scalar does to the best number;
2. `leads_of_best?`: the best number comes before all others of its rank;
3. `isLE_or_rounded`: a number of no higher rank is no larger, but for two such integers;
4. `extremes_are_unbeaten_up_to_rounding`: the largest and the smallest number by the operators.
-/

namespace Spreadsheet

open Number Value Formula

/-! ## The first of the best numbers -/

namespace Builtin

/-- The value is a number in the list; the numbers before it are of lower rank, and those after it
are of no higher one. -/
structure Leads (rank : Value → Int) (vs : List Value) (v : Value) : Prop where
  isNumber : v.isNumber = true
  first : ∃ before after, vs = before ++ v :: after ∧
    (∀ u ∈ before, u.isNumber = true → rank u < rank v) ∧
    ∀ u ∈ after, u.isNumber = true → rank u ≤ rank v

variable {rank : Value → Int} {better : Float → Float → Bool} {vs : List Value} {u v : Value}
  {x y : Float}

namespace Leads

theorem mem (h : Leads rank vs v) : v ∈ vs := by
  obtain ⟨before, after, rfl, -, -⟩ := h.first
  simp

theorem rank_le (h : Leads rank vs v) (hu : u ∈ vs) (hnumber : u.isNumber = true) :
    rank u ≤ rank v := by
  obtain ⟨before, after, rfl, hbefore, hafter⟩ := h.first
  rcases List.mem_append.mp hu with hu | hu
  · exact (hbefore u hu hnumber).le
  · rcases List.mem_cons.mp hu with rfl | hu
    · exact le_rfl
    · exact hafter u hu hnumber

/-- The first number leads. -/
theorem of_none (h : ∀ u ∈ vs, u.isNumber = false) (hv : v.isNumber = true) :
    Leads rank (vs ++ [v]) v :=
  ⟨hv, vs, [], rfl, fun u hu hnumber => absurd hnumber (by simp [h u hu]), nofun⟩

/-- A scalar that is no number of higher rank leaves the lead as it was. -/
theorem keep (h : Leads rank vs v) (hu : u.isNumber = true → rank u ≤ rank v) :
    Leads rank (vs ++ [u]) v := by
  obtain ⟨before, after, rfl, hbefore, hafter⟩ := h.first
  refine ⟨h.isNumber, before, after ++ [u], by simp, hbefore, fun t ht => ?_⟩
  rcases List.mem_append.mp ht with ht | ht
  · exact hafter t ht
  · rw [List.mem_singleton.mp ht]
    exact hu

/-- A number of higher rank takes the lead. -/
theorem beat (h : Leads rank vs v) (hnumber : u.isNumber = true) (hu : rank v < rank u) :
    Leads rank (vs ++ [u]) u :=
  ⟨hnumber, vs, [], rfl, fun _ ht htnumber => (h.rank_le ht htnumber).trans_lt hu, nofun⟩

end Leads

/-- Among the numbers of the list, better doubles are those of higher rank. -/
def Ranks (rank : Value → Int) (better : Float → Float → Bool) (vs : List Value) : Prop :=
  ∀ u ∈ vs, ∀ v ∈ vs, ∀ x y, u.number? = some x → v.number? = some y →
    (better x y = true ↔ rank v < rank u)

theorem isNumber_of_number? (h : v.number? = some x) : v.isNumber = true := by
  cases v <;> first | rfl | exact nomatch h

theorem isNumber_of_number?_eq_none (h : v.number? = none) : v.isNumber = false := by
  cases v <;> first | rfl | exact nomatch h

theorem best?_append (better : Float → Float → Bool) (vs : List Value) (v : Value) :
    best? better (vs ++ [v]) = match v.number?, best? better vs with
      | none, best => best
      | some x, none => some (x, v)
      | some x, some (y, u) => if better x y then some (x, v) else some (y, u) := by
  rw [best?, List.foldl_append, ← best?, List.foldl_cons, List.foldl_nil]
  cases v.number? <;> cases best? better vs <;> rfl

/-- The best number leads, and there is one if there is any number. -/
theorem leads_of_best? (h : Ranks rank better vs) :
    (best? better vs = none → ∀ v ∈ vs, v.isNumber = false) ∧
    ∀ y u, best? better vs = some (y, u) → u.number? = some y ∧ Leads rank vs u := by
  induction vs using List.reverseRecOn with
  | nil => exact ⟨fun _ => nofun, nofun⟩
  | append_singleton vs v ih =>
    obtain ⟨hnone, hsome⟩ := ih fun s hs t ht => h s (by simp [hs]) t (by simp [ht])
    rw [best?_append]
    cases hv : v.number? with
    | none =>
      have hnumber := isNumber_of_number?_eq_none hv
      refine ⟨fun hbest u hu => ?_, fun y u hbest => ?_⟩
      · rcases List.mem_append.mp hu with hu | hu
        · exact hnone hbest u hu
        · rwa [List.mem_singleton.mp hu]
      · obtain ⟨hu, hleads⟩ := hsome y u hbest
        exact ⟨hu, hleads.keep fun htrue => nomatch hnumber.symm.trans htrue⟩
    | some x =>
      cases hbest : best? better vs with
      | none =>
        refine ⟨nofun, fun y u heq => ?_⟩
        cases heq
        exact ⟨hv, .of_none (hnone hbest) (isNumber_of_number? hv)⟩
      | some p =>
        obtain ⟨y, u⟩ := p
        obtain ⟨hu, hleads⟩ := hsome y u hbest
        have hrank := h v (by simp) u (by simp [hleads.mem]) x y hv hu
        dsimp only
        split
        · next hbetter =>
          refine ⟨nofun, fun z t heq => ?_⟩
          cases heq
          exact ⟨hv, hleads.beat (isNumber_of_number? hv) (hrank.mp hbetter)⟩
        · next hworse =>
          refine ⟨nofun, fun z t heq => ?_⟩
          cases heq
          exact ⟨hu, hleads.keep fun _ => Int.not_lt.mp (mt hrank.mpr hworse)⟩

/-- Of arguments with a number and without an error, the extreme is the number that leads. -/
theorem leads_extreme (limits : Limits) {args : List Value} (hclean : firstError? args = none)
    (hnumber : ∃ v ∈ leavesOf args, v.isNumber = true)
    (h : Ranks rank better (leavesOf args)) :
    Leads rank (leavesOf args) (extreme better limits args) := by
  obtain ⟨hnone, hsome⟩ := leads_of_best? h
  rw [extreme, strict, hclean]
  dsimp only
  cases hbest : best? better (leavesOf args) with
  | none =>
    obtain ⟨v, hv, htrue⟩ := hnumber
    exact nomatch (hnone hbest v hv).symm.trans htrue
  | some p =>
    obtain ⟨y, u⟩ := p
    exact (hsome y u hbest).2

/-! ## Ranks by doubles -/

theorem spot_of_number? (h : v.number? = some x) : v.spot = place (parts x) := by
  cases v <;> first | cases h; rfl | exact nomatch h

/-- A number that is not NaN can be compared. -/
theorem comparable_of_number (hnan : ∀ x, v = .float x → x.isNaN = false)
    (h : v.isNumber = true) : v.Comparable := by
  cases v with
  | int n => exact .int n
  | float x => exact .float (hnan x rfl)
  | _ => exact nomatch h

theorem isNaN_of_number? (hnan : ∀ x, v = .float x → x.isNaN = false)
    (h : v.number? = some x) : x.isNaN = false := by
  cases v with
  | int n =>
    cases h
    exact isNaN_ofInt64 n
  | float y =>
    cases h
    exact hnan x rfl
  | _ => exact nomatch h

variable (hnan : ∀ x, .float x ∈ vs → x.isNaN = false)
include hnan

/-- Larger doubles stand further on. -/
theorem ranks_spot : Ranks spot (fun x y => y < x) vs := by
  intro u hu v hv x y hx hy
  rw [decide_eq_true_eq, spot_of_number? hx, spot_of_number? hy]
  exact lt_iff_place (isNaN_of_number? (fun z hz => hnan z (hz ▸ hv)) hy)
    (isNaN_of_number? (fun z hz => hnan z (hz ▸ hu)) hx)

/-- Smaller ones stand further back. -/
theorem ranks_neg_spot : Ranks (fun v => -v.spot) (fun x y => x < y) vs := by
  intro u hu v hv x y hx hy
  have := ranks_spot hnan v hv u hu y x hy hx
  rw [Int.neg_lt_neg_iff]
  exact this

end Builtin

/-! ## Ranks and the order -/

namespace Value

/-- Two different integers of more than 53 digits that are rounded to the same double. -/
def Rounded (u v : Value) : Prop :=
  ∃ x, Blurred u (.float x) v

theorem Rounded.symm {u v : Value} (h : Rounded u v) : Rounded v u :=
  h.imp fun _ => Blurred.symm

/-- An integer that is a double is not rounded to the double of another one. -/
theorem not_rounded_of_small {n : Int64} {v : Value} (h : n.toInt.natAbs < 2 ^ 53) :
    ¬Rounded (.int n) v := by
  rintro ⟨x, m, k, y, hm, -, -, -, ⟨hlarge, -⟩, -⟩
  cases hm
  exact absurd hlarge h.not_ge

/-- A number that stands no further on is no larger, but for two integers that are rounded to the
same double. -/
theorem isLE_or_rounded {u v : Value} (hu : u.Comparable) (hv : v.Comparable)
    (h : u.spot ≤ v.spot) (hnumber : u.isNumber = true) :
    (u.order v).isLE = true ∨ Rounded u v := by
  rcases h.lt_or_eq with hlt | heq
  · rw [order_of_spot_lt (hu.pair hv) hlt]
    exact .inl rfl
  · cases hu.pair hv with
    | spots h =>
      rw [h, Int.compare_eq_eq.mpr heq]
      exact .inl rfl
    | ints m n =>
      refine (eq_or_blurred (isNaN_ofInt64 m) rfl heq).imp (fun hmn => ?_) fun hblur => ⟨_, hblur⟩
      rw [hmn, order_self (.int n)]
      rfl
    | texts s t => exact nomatch hnumber
    | bools p q => exact nomatch hnumber

end Value

/-! ## Main theorem -/

open Builtin in
/-- Where the arguments hold a number and neither an error nor NaN, at any depth of lists, `MAX` and
`MIN` are one of their numbers. By the comparison no number is larger than `MAX` or smaller than
`MIN`, except for two different integers that are both at least `2 ^ 53` in size and rounded to the
same double. The operators answer as the comparison does. -/
theorem extremes_are_unbeaten_up_to_rounding (limits : Limits) (args : List Value)
    (hclean : firstError? args = none) (hnan : ∀ x, .float x ∈ leavesOf args → x.isNaN = false)
    (hnumber : ∃ v ∈ leavesOf args, v.isNumber = true) :
    ((maximum limits args ∈ leavesOf args ∧ (maximum limits args).isNumber = true) ∧
      ∀ u ∈ leavesOf args, u.isNumber = true → ∃ o, u.compare (maximum limits args) = .ok o ∧
        BinaryOp.greaterThan.apply limits u (maximum limits args) = .bool o.isGT ∧
        (o = .gt → Rounded u (maximum limits args))) ∧
    (minimum limits args ∈ leavesOf args ∧ (minimum limits args).isNumber = true) ∧
      ∀ u ∈ leavesOf args, u.isNumber = true → ∃ o, u.compare (minimum limits args) = .ok o ∧
        BinaryOp.lessThan.apply limits u (minimum limits args) = .bool o.isLT ∧
        (o = .lt → Rounded u (minimum limits args)) := by
  have hcomparable : ∀ u ∈ leavesOf args, u.isNumber = true → u.Comparable :=
    fun u hu => comparable_of_number fun x hx => hnan x (hx ▸ hu)
  have hmax : Leads spot (leavesOf args) (maximum limits args) :=
    leads_extreme limits hclean hnumber (ranks_spot hnan)
  have hmin : Leads (fun v => -v.spot) (leavesOf args) (minimum limits args) :=
    leads_extreme limits hclean hnumber (ranks_neg_spot hnan)
  refine ⟨⟨⟨hmax.mem, hmax.isNumber⟩, fun u hu hnumber => ?_⟩, ⟨hmin.mem, hmin.isNumber⟩,
    fun u hu hnumber => ?_⟩
  · have ha := hcomparable u hu hnumber
    have hb := hcomparable _ hmax.mem hmax.isNumber
    refine ⟨_, compare_eq ha hb, ordered_eq _ ha hb, fun hgt => ?_⟩
    refine (isLE_or_rounded ha hb (hmax.rank_le hu hnumber) hnumber).resolve_left fun hle => ?_
    rw [hgt] at hle
    exact nomatch hle
  · have ha := hcomparable u hu hnumber
    have hb := hcomparable _ hmin.mem hmin.isNumber
    refine ⟨_, compare_eq ha hb, ordered_eq _ ha hb, fun hlt => ?_⟩
    have hspot : (minimum limits args).spot ≤ u.spot :=
      Int.neg_le_neg_iff.mp (hmin.rank_le hu hnumber)
    refine ((isLE_or_rounded hb ha hspot hmin.isNumber).resolve_left fun hle => ?_).symm
    rw [order_swap ha hb, hlt] at hle
    exact nomatch hle

open Builtin in
/-- Of 3, a text and a list of 7 and an empty cell the largest number is 7, and no other one is
larger; 7 is not smaller than the smallest one either. -/
theorem extremes_are_unbeaten_up_to_rounding_nested :
    let args := [.int 3, .text "a", .array [.int 7, .empty]]
    maximum {} args = .int 7 ∧ (Value.int 3).compare (maximum {} args) ≠ .ok .gt ∧
      BinaryOp.lessThan.apply {} (.int 7) (minimum {} args) = .bool false := by
  intro args
  have hfloat : ∀ x, .float x ∈ leavesOf args → x.isNaN = false := by
    intro x hx
    simp [args, leavesOf, leaves] at hx
  obtain ⟨⟨-, hmax⟩, -, hmin⟩ := extremes_are_unbeaten_up_to_rounding {} args rfl hfloat
    ⟨.int 3, by simp [args, leavesOf, leaves], rfl⟩
  obtain ⟨o, hcompare, -, ho⟩ := hmax (.int 3) (by simp [args, leavesOf, leaves]) rfl
  obtain ⟨o', -, hoperator, ho'⟩ := hmin (.int 7) (by simp [args, leavesOf, leaves]) rfl
  refine ⟨rfl, fun hgt => ?_, ?_⟩
  · exact not_rounded_of_small (by decide) (ho (Except.ok.inj (hcompare.symm.trans hgt)))
  · rw [hoperator]
    cases o' with
    | lt => exact absurd (ho' rfl) (not_rounded_of_small (by decide))
    | eq => rfl
    | gt => rfl

open Builtin in
/-- The exception: `2 ^ 53 + 1` is larger than `2 ^ 53`, but behind it `MAX` keeps `2 ^ 53`. -/
theorem maximum_is_beaten : ¬∀ (limits : Limits) (args : List Value), firstError? args = none →
    (∀ x, .float x ∈ leavesOf args → x.isNaN = false) →
    (∃ v ∈ leavesOf args, v.isNumber = true) →
    ∀ u ∈ leavesOf args, u.isNumber = true → u.compare (maximum limits args) ≠ .ok .gt := by
  intro h
  have hvalue : maximum {} [.int 9007199254740992, .int 9007199254740993] =
      .int 9007199254740992 := by
    rfl
  refine h {} [.int 9007199254740992, .int 9007199254740993] rfl (by simp [leavesOf, leaves])
    ⟨.int 9007199254740992, by simp [leavesOf, leaves], rfl⟩ (.int 9007199254740993)
    (by simp [leavesOf, leaves]) rfl ?_
  rw [hvalue]
  decide +kernel

end Spreadsheet
