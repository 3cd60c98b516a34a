import Spreadsheet.Proofs.Texts
import Spreadsheet.Proofs.Words

/-!
# What aggregates see

An aggregate goes through all scalars of its arguments, whatever lists they stand in, and each kind
of scalar but the numbers leaves it as it was. So it might as well be given the numbers alone, one
argument each. Only `COUNTA` looks at the rest, and counts all that is not empty.

A total of integers stays an integer until it leaves the words once. From then on it is a double and
never comes back, even if the exact total is a word again. So it is exact or it is no integer.

Results:
1. `sum_numbersOf` and its like: an aggregate is that of the numbers alone;
2. `foldl_step_of_not_isWord`: a total that leaves the words is a double to the end;
3. `aggregates_see_numbers`: both for all six aggregates of numbers, with what they are without any
   number, and `COUNTA`.
-/

namespace Spreadsheet

open Number Value

/-! ## Numbers alone -/

namespace Value

/-- The numbers among the scalars of a list of values, from left to right. -/
def numbersOf (args : List Value) : List Value :=
  (leavesOf args).filter isNumber

theorem IsScalar.of_isNumber {v : Value} (h : v.isNumber = true) : v.IsScalar := by
  rintro cells rfl
  cases h

theorem leavesOf_numbersOf (args : List Value) : leavesOf (numbersOf args) = numbersOf args :=
  leavesOf_of_isScalar fun _ hv => .of_isNumber (List.mem_filter.mp hv).2

theorem firstError?_numbersOf (args : List Value) : firstError? (numbersOf args) = none := by
  refine firstError?_of_leavesOf (leavesOf_numbersOf args) fun v hv => ?_
  have hnumber := (List.mem_filter.mp hv).2
  cases v <;> first | rfl | exact absurd hnumber Bool.false_ne_true

end Value

namespace Builtin

section

variable {limits : Limits} {args : List Value}

/-- A total passes over a scalar that is no number. -/
theorem Total.step_of_not_isNumber (op : Int → Int → Int) (real : Float → Float → Float)
    (t : Total) {v : Value} (h : ¬v.isNumber = true) : t.step op real v = t := by
  cases v <;> first | exact absurd rfl h | cases t <;> rfl

theorem foldl_step_filter (op : Int → Int → Int) (real : Float → Float → Float) (t : Total)
    (vs : List Value) : (vs.filter isNumber).foldl (Total.step op real) t =
      vs.foldl (Total.step op real) t := by
  rw [List.foldl_filter]
  congr 1
  funext t v
  split
  · rfl
  · next h => exact (t.step_of_not_isNumber op real h).symm

theorem best?_filter (better : Float → Float → Bool) (vs : List Value) :
    best? better (vs.filter isNumber) = best? better vs := by
  rw [best?, best?, List.foldl_filter]
  congr 1
  funext best v
  cases v <;> rfl

/-- Without an error a strict function does with the numbers alone what its body does. -/
theorem strict_numbersOf {body : Limits → List Value → Except CellError Value}
    (hclean : firstError? args = none) (hbody : body limits (numbersOf args) = body limits args) :
    strict body limits args = strict body limits (numbersOf args) := by
  rw [strict, strict, hclean, firstError?_numbersOf, hbody]

theorem sum_numbersOf (hclean : firstError? args = none) :
    sum limits args = sum limits (numbersOf args) := by
  refine strict_numbersOf hclean ?_
  rw [leavesOf_numbersOf, numbersOf, foldl_step_filter]

theorem product_numbersOf (hclean : firstError? args = none) :
    product limits args = product limits (numbersOf args) := by
  refine strict_numbersOf hclean ?_
  rw [leavesOf_numbersOf]
  simp only [numbersOf, foldl_step_filter, List.any_filter, Bool.and_self]

theorem average_numbersOf (hclean : firstError? args = none) :
    average limits args = average limits (numbersOf args) := by
  refine strict_numbersOf hclean ?_
  have hnumbers : (numbersOf args).filterMap number? = (leavesOf args).filterMap number? := by
    rw [numbersOf, List.filterMap_filter]
    congr 1
    funext v
    cases v <;> rfl
  rw [leavesOf_numbersOf, hnumbers]

theorem count_numbersOf (hclean : firstError? args = none) :
    count limits args = count limits (numbersOf args) := by
  refine strict_numbersOf hclean ?_
  rw [leavesOf_numbersOf]
  simp only [numbersOf, List.countP_filter, Bool.and_self]

theorem extreme_numbersOf (better : Float → Float → Bool) (hclean : firstError? args = none) :
    extreme better limits args = extreme better limits (numbersOf args) := by
  refine strict_numbersOf hclean ?_
  rw [leavesOf_numbersOf, numbersOf, best?_filter]

end

/-! ## Integers alone -/

/-- A double is a total to the end. -/
theorem foldl_step_real (op : Int → Int → Int) (real : Float → Float → Float) (x : Float)
    (vs : List Value) : ∃ y, vs.foldl (Total.step op real) (.real x) = .real y := by
  induction vs generalizing x with
  | nil => exact ⟨x, rfl⟩
  | cons v vs ih =>
    obtain ⟨y, hy⟩ : ∃ y, Total.step op real (.real x) v = .real y := by
      cases v <;> exact ⟨_, rfl⟩
    rw [List.foldl_cons, hy]
    exact ih y

/-- A total of integers that once leaves the words is a double to the end. -/
theorem foldl_step_of_not_isWord (op : Int → Int → Int) (real : Float → Float → Float)
    (ks : List Int64) (t : Int64) {part : List Int} (hpart : part <+: ks.map Int64.toInt)
    (h : ¬IsWord (part.foldl op t.toInt)) :
    ∃ x, (ks.map Value.int).foldl (Total.step op real) (.whole t) = .real x := by
  induction ks generalizing t part with
  | nil =>
    obtain rfl := List.prefix_nil.mp hpart
    exact absurd (isWord_toInt t) h
  | cons k ks ih =>
    rw [List.map_cons, List.foldl_cons, Total.step]
    by_cases hnext : IsWord (op t.toInt k.toInt)
    · obtain ⟨r, hr, hvalue⟩ := int64?_of_isWord hnext
      rw [hr]
      cases part with
      | nil => exact absurd (isWord_toInt t) h
      | cons n part =>
        obtain ⟨rfl, hrest⟩ := List.cons_prefix_cons.mp hpart
        rw [List.foldl_cons, ← hvalue] at h
        exact ih r hrest h
    · rw [int64?_of_not_isWord hnext]
      exact foldl_step_real op real _ _

/-- The value is no integer, but a double or the error of one that is not finite. -/
def IsReal (v : Value) : Prop :=
  (∃ x, v = .float x) ∨ v = .error .num

theorem isReal_toValue (x : Float) : IsReal (Total.real x).toValue := by
  show IsReal (Value.finite x)
  unfold Value.finite
  split
  · exact .inl ⟨x, rfl⟩
  · exact .inr rfl

variable {args : List Value} {ks : List Int64}

theorem firstError?_of_integers (hargs : leavesOf args = ks.map .int) :
    firstError? args = none :=
  firstError?_of_leavesOf hargs (List.forall_mem_map.mpr fun _ _ => rfl)

theorem sum_isReal (limits : Limits) (hargs : leavesOf args = ks.map .int) {part : List Int}
    (hpart : part <+: ks.map Int64.toInt) (h : ¬IsWord part.sum) : IsReal (sum limits args) := by
  rw [List.sum_eq_foldl, ← Int64.toInt_zero] at h
  obtain ⟨x, hfold⟩ := foldl_step_of_not_isWord (· + ·) (· + ·) ks 0 hpart h
  rw [sum, strict, firstError?_of_integers hargs, hargs, hfold]
  exact isReal_toValue x

/-- The product of a list with a number in it. -/
theorem product_eq (limits : Limits) (hargs : leavesOf args = ks.map .int) (hks : ks ≠ []) :
    product limits args =
      ((ks.map Value.int).foldl (Total.step (· * ·) (· * ·)) (.whole 1)).toValue := by
  have hany : (ks.map Value.int).any isNumber = true := by
    obtain ⟨k, ks, rfl⟩ := List.exists_cons_of_ne_nil hks
    rfl
  rw [product, strict, firstError?_of_integers hargs, hargs]
  dsimp only
  rw [if_pos hany]
  rfl

theorem product_isInteger (limits : Limits) (hargs : leavesOf args = ks.map .int) (hks : ks ≠ [])
    (h : ∀ part, part <+: ks.map Int64.toInt → IsWord part.prod) :
    (product limits args).IsInteger (ks.map Int64.toInt).prod := by
  obtain ⟨r, hfold, hvalue⟩ := foldl_step (· * ·) (· * ·) ks 1 fun part hpart => by
    rw [Int64.toInt_one, ← List.prod_eq_foldl]
    exact h part hpart
  rw [Int64.toInt_one, ← List.prod_eq_foldl] at hvalue
  rw [product_eq limits hargs hks, hfold]
  exact ⟨r, rfl, hvalue⟩

theorem product_isReal (limits : Limits) (hargs : leavesOf args = ks.map .int) (hks : ks ≠ [])
    {part : List Int} (hpart : part <+: ks.map Int64.toInt) (h : ¬IsWord part.prod) :
    IsReal (product limits args) := by
  rw [List.prod_eq_foldl, ← Int64.toInt_one] at h
  obtain ⟨x, hfold⟩ := foldl_step_of_not_isWord (· * ·) (· * ·) ks 1 hpart h
  rw [product_eq limits hargs hks, hfold]
  exact isReal_toValue x

/-! ## Counts -/

theorem count_eq (limits : Limits) (hclean : firstError? args = none) :
    count limits args = whole (numbersOf args).length := by
  rw [count, strict, hclean, numbersOf, ← List.countP_eq_length_filter]
  rfl

theorem counta_eq (limits : Limits) (hclean : firstError? args = none) :
    counta limits args = whole ((leavesOf args).countP fun v => !(v matches .empty)) := by
  rw [counta, strict, hclean]
  rfl

end Builtin

/-! ## Main theorem -/

open Builtin in
/-- Whatever lists the scalars of the arguments stand in, if there is no error among them, `SUM`,
`PRODUCT`, `AVERAGE`, `COUNT`, `MIN` and `MAX` are what they are of the numbers alone, one argument
each. Without any number they are zero, and the mean divides by zero. Where all numbers are
integers, `SUM` is their exact sum if each sum on the way is a word, and no integer otherwise; likewise
`PRODUCT`, of one integer or more. `COUNT` is the number of numbers and `COUNTA` that of scalars
that are not empty, both as words. -/
theorem aggregates_see_numbers (limits : Limits) (args : List Value)
    (hclean : firstError? args = none) :
    (∀ f ∈ [sum, product, average, count, minimum, maximum],
      f limits args = f limits (numbersOf args)) ∧
    (numbersOf args = [] →
      sum limits args = .int 0 ∧ product limits args = .int 0 ∧
      average limits args = .error .divZero ∧ count limits args = .int 0 ∧
      minimum limits args = .int 0 ∧ maximum limits args = .int 0) ∧
    (∀ ks : List Int64, numbersOf args = ks.map .int →
      ((∀ part, part <+: ks.map Int64.toInt → IsWord part.sum) →
        (sum limits args).IsInteger (ks.map Int64.toInt).sum) ∧
      (∀ part, part <+: ks.map Int64.toInt → ¬IsWord part.sum → IsReal (sum limits args)) ∧
      (ks ≠ [] →
        ((∀ part, part <+: ks.map Int64.toInt → IsWord part.prod) →
          (product limits args).IsInteger (ks.map Int64.toInt).prod) ∧
        ∀ part, part <+: ks.map Int64.toInt → ¬IsWord part.prod →
          IsReal (product limits args))) ∧
    count limits args = whole (numbersOf args).length ∧
    counta limits args = whole ((leavesOf args).countP fun v => !(v matches .empty)) ∧
    ∀ n < 2 ^ 63, (whole n).IsInteger n := by
  have hsame : ∀ f ∈ [sum, product, average, count, minimum, maximum],
      f limits args = f limits (numbersOf args) := by
    simp only [List.forall_mem_cons, List.not_mem_nil, false_imp_iff, implies_true, and_true]
    exact ⟨sum_numbersOf hclean, product_numbersOf hclean, average_numbersOf hclean,
      count_numbersOf hclean, extreme_numbersOf _ hclean, extreme_numbersOf _ hclean⟩
  refine ⟨hsame, fun hnone => ?_, fun ks hks => ?_, count_eq limits hclean,
    counta_eq limits hclean, fun n => whole_isInteger⟩
  · rw [hnone] at hsame
    simp only [List.forall_mem_cons, List.not_mem_nil, false_imp_iff, implies_true, and_true]
      at hsame
    exact hsame
  · have hleaves : leavesOf (numbersOf args) = ks.map .int := (leavesOf_numbersOf args).trans hks
    rw [sum_numbersOf hclean, product_numbersOf hclean]
    exact ⟨sum_isInteger limits hleaves, fun part => sum_isReal limits hleaves, fun hne =>
      ⟨product_isInteger limits hleaves hne, fun part => product_isReal limits hleaves hne⟩⟩

open Builtin in
/-- Of a text, a boolean and 3 and 4 in a list of lists the sum is 7 and the product 12, and four
scalars are not empty. The greatest word and one more are no integer together, and nothing is left
of a text alone. -/
theorem aggregates_see_numbers_nested :
    let args := [.text "9", .array [.bool true, .array [.int 3, .empty]], .int 4]
    (sum {} args).IsInteger 7 ∧ (product {} args).IsInteger 12 ∧ counta {} args = whole 4 ∧
      maximum {} args = maximum {} [.int 3, .int 4] ∧
      IsReal (sum {} [.int Int64.maxValue, .array [.int 1], .int (-1)]) ∧
      average {} [.text "9"] = .error .divZero := by
  intro args
  obtain ⟨hsame, -, hintegers, -, hcounta, -⟩ := aggregates_see_numbers {} args rfl
  obtain ⟨hsum, -, hproduct⟩ := hintegers [3, 4] rfl
  obtain ⟨-, -, hlarge, -⟩ :=
    aggregates_see_numbers {} [.int Int64.maxValue, .array [.int 1], .int (-1)] rfl
  obtain ⟨-, hempty, -⟩ := aggregates_see_numbers {} [.text "9"] rfl
  have hparts : ∀ part ∈ [3, 4].inits, IsWord part.sum ∧ IsWord part.prod := by decide
  refine ⟨hsum fun part hpart => (hparts part ((List.mem_inits _ _).mpr hpart)).1,
    (hproduct (List.cons_ne_nil _ _)).1 fun part hpart =>
      (hparts part ((List.mem_inits _ _).mpr hpart)).2, hcounta, hsame maximum (by simp), ?_,
    (hempty rfl).2.2.1⟩
  exact (hlarge [Int64.maxValue, 1, -1] rfl).2.1 [Int64.maxValue.toInt, 1]
    ⟨[-1], rfl⟩ (by decide)

end Spreadsheet
